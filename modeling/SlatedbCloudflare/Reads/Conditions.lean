import SlatedbCloudflare.Platform.Reads
import SlatedbCloudflare.DurableObject.Reads

/-! # Conditional reads of the Durable Object

The conditions of a read are translated for R2 and checked again on the metadata
that R2 returns. A read for content needs both to agree.
-/
namespace SlatedbCloudflare.R2Store
open Programs ObjectStore R2

/-- The read gives the object that the crate's check accepts, or the error of that check. -/
def ReadsAs (R : Rules) (lib : Crate) (location : Path) (o : Object) (options : GetOptions) : Prop :=
  (getInner lib location options).eval (holding R (some o)) =
    (lib.checkPreconditions options (objectMeta lib location o)).map
      (fun _ => ⟨if options.head then [] else o.content,objectMeta lib location o,(0,o.size)⟩)

structure Translates (before after : ℕ → ℕ → Prop) (options : GetOptions) (o : Object) : Prop where
  ifMatch : ∀ tag ∈ options.ifMatch, tag = "*" ∨ tag = o.etag.val
  ifNoneMatch : ∀ tag ∈ options.ifNoneMatch, tag ≠ "*" ∧ tag ≠ o.etag.val
  ifUnmodifiedSince : options.ifMatch = none →
    ∀ date ∈ options.ifUnmodifiedSince, before o.uploaded (asU64 (timestampMillis date))
  ifModifiedSince : options.ifNoneMatch = none →
    ∀ date ∈ options.ifModifiedSince, after o.uploaded (asU64 (timestampMillis date))

section
variable {R : Rules} {lib : Crate} {before after : ℕ → ℕ → Prop} {location : Path} {o : Object}
  {options : GetOptions}

theorem translates_iff : Translates before after options o ↔
    (readConditional options).Holds before after o := by
  have htag : ∀ tag, Rules.matchesTag tag o = true ↔ tag = "*" ∨ tag = o.etag.val := by
    intro tag
    rw [Rules.matchesTag, Bool.or_eq_true, decide_eq_true_eq, decide_eq_true_eq, eq_comm (a := o.etag.val)]
  have hother : ∀ tag, Rules.matchesTag tag o = false ↔ tag ≠ "*" ∧ tag ≠ o.etag.val := by
    intro tag
    rw [Bool.eq_false_iff, ne_eq, htag, not_or]
  constructor
  · rintro ⟨hmatch,hnone,hbefore,hafter⟩
    constructor
    · cases h : options.ifMatch with
      | some tag => simpa [readConditional, h, htag] using hmatch tag h
      | none => simpa [readConditional, h] using hbefore h
    · cases h : options.ifNoneMatch with
      | some tag => simpa [readConditional, h, hother] using hnone tag h
      | none => simpa [readConditional, h] using hafter h
  · rintro ⟨hfirst,hsecond⟩
    constructor
    · intro tag h
      rw [Option.mem_def] at h
      simpa [readConditional, h, htag] using hfirst
    · intro tag h
      rw [Option.mem_def] at h
      simpa [readConditional, h, hother] using hsecond
    · intro h
      simpa [readConditional, h] using hfirst
    · intro h
      simpa [readConditional, h] using hsecond

theorem read_condition (hR : R.ReadsConditionally before after) (options : GetOptions) (o : Object) :
    ∃ body, R.read (readCondition options) .whole o = some body ∧
      (Translates before after options o → body = some o.content) ∧
      (¬ Translates before after options o → body = none) := by
  rw [readCondition]
  by_cases hdefault : readConditional options = {}
  · have hholds : Translates before after options o := by
      rw [translates_iff, hdefault]
      exact ⟨by simp,by simp⟩
    rw [if_neg (by simp [hdefault])]
    exact ⟨_,R.read_whole o,fun _ => rfl,fun h => absurd hholds h⟩
  · rw [if_pos hdefault]
    by_cases hholds : (readConditional options).Holds before after o
    · exact ⟨_,hR.body hholds,fun _ => rfl,fun h => absurd (translates_iff.mpr hholds) h⟩
    · exact ⟨_,hR.noBody hholds,fun h => absurd (translates_iff.mp h) hholds,fun _ => rfl⟩

theorem fetchObject_eval (hR : R.ReadsConditionally before after) (lib : Crate) (o : Object)
    (hrange : options.range = none) (k : String) : ∃ body, (fetchObject lib k options).eval (holding R (some o)) = .ok (some (o,body)) ∧
      (options.head = false → (Translates before after options o → body = some o.content) ∧
        (¬ Translates before after options o → body = none)) := by
  cases hplain : plainHead options with
  | true =>
    refine ⟨none,?_,fun hhead => ?_⟩
    · rw [fetchObject, if_pos hplain]
      rfl
    · rw [plainHead, hhead] at hplain
      cases hplain
  | false =>
    obtain ⟨body,hread,hbody⟩ := read_condition hR options o
    refine ⟨body,?_,fun _ => hbody⟩
    have hget : holding R (some o) (.get k (readCondition options) .whole) = .ok (some (o,body)) := by
      simp only [holding, hread]
    rw [fetchObject_eq hplain, readRange, hrange]
    change (Prog.orElse (holding R (some o) _) r2Failed).eval _ = _
    rw [hget]
    rfl

theorem getInner_eval (hversion : options.version = none) (hrange : options.range = none) {body : Option Bytes}
    (hfetch : (fetchObject lib (key location) options).eval (holding R (some o)) = .ok (some (o,body))) :
    (getInner lib location options).eval (holding R (some o)) =
      match lib.checkPreconditions options (objectMeta lib location o) with
      | .error e => .error e
      | .ok () =>
        if options.head then .ok ⟨[],objectMeta lib location o,(0,o.size)⟩
        else body.elim (.error (.precondition location.raw "R2 returned metadata without a body"))
          (fun bytes => .ok ⟨bytes,objectMeta lib location o,(0,o.size)⟩) := by
  have hbucket : (bucket : R2M Unit).eval (holding R (some o)) = .ok () := rfl
  unfold getInner
  rw [Prog.eval_bind_ok (a := ()) rfl, hversion, Option.isSome_none, if_neg Bool.false_ne_true,
    Prog.eval_bind_ok hbucket, Prog.eval_bind_ok hfetch]
  simp only [hrange, returnedRange, Prog.orElse_ok, Prog.ok_bind]
  cases lib.checkPreconditions options (objectMeta lib location o) with
  | error e => rfl
  | ok u =>
    cases options.head with
    | true => rfl
    | false =>
      cases body with
      | none => rfl
      | some bytes => rfl

theorem readsAs_head (hR : R.ReadsConditionally before after) (hversion : options.version = none)
    (hrange : options.range = none) (hhead : options.head = true) : ReadsAs R lib location o options := by
  obtain ⟨body,hfetch,_⟩ := fetchObject_eval hR lib o hrange (key location)
  rw [ReadsAs, getInner_eval hversion hrange hfetch, hhead]
  cases lib.checkPreconditions options (objectMeta lib location o) with
  | error e => rfl
  | ok u => rfl

/-- A read for content agrees with the check exactly if R2 gives a body where the check accepts. -/
theorem readsAs_content (hR : R.ReadsConditionally before after) (hversion : options.version = none)
    (hrange : options.range = none) (hhead : options.head = false) : ReadsAs R lib location o options ↔
      (lib.checkPreconditions options (objectMeta lib location o) = .ok () →
        Translates before after options o) := by
  obtain ⟨body,hfetch,hbody⟩ := fetchObject_eval hR lib o hrange (key location)
  obtain ⟨hsome,hnone⟩ := hbody hhead
  rw [ReadsAs, getInner_eval hversion hrange hfetch, hhead]
  cases lib.checkPreconditions options (objectMeta lib location o) with
  | error e => exact ⟨fun _ h => (by cases h),fun _ => rfl⟩
  | ok u =>
    by_cases htranslates : Translates before after options o
    · rw [hsome htranslates]
      exact ⟨fun _ _ => htranslates,fun _ => rfl⟩
    · rw [hnone htranslates]
      exact ⟨fun h => (by cases h),fun h => absurd (h rfl) htranslates⟩

/-- Reads agree with the check of the crate exactly if the condition sent to R2 holds
wherever the check accepts. -/
theorem readsAs_iff (hR : R.ReadsConditionally before after) (options : GetOptions) (hversion : options.version = none)
    (hrange : options.range = none) : (∀ head, ReadsAs R lib location o { options with head := head }) ↔
      (lib.checkPreconditions { options with head := false } (objectMeta lib location o) = .ok () →
        Translates before after options o) := by
  have hcontent : ReadsAs R lib location o { options with head := false } ↔
      (lib.checkPreconditions { options with head := false } (objectMeta lib location o) = .ok () →
        Translates before after { options with head := false } o) := readsAs_content hR hversion hrange rfl
  constructor
  · intro h hcheck
    obtain ⟨hmatch,hnone,hbefore,hafter⟩ := hcontent.mp (h false) hcheck
    exact ⟨hmatch,hnone,hbefore,hafter⟩
  · intro h head
    cases head with
    | true => exact readsAs_head hR hversion hrange rfl
    | false =>
      refine hcontent.mpr fun hcheck => ?_
      obtain ⟨hmatch,hnone,hbefore,hafter⟩ := h hcheck
      exact ⟨hmatch,hnone,hbefore,hafter⟩

end

/-- An object with a tag that two entries of a list name, uploaded one second after the epoch. -/
def taggedObject : Object := ⟨"a","v",⟨"abc",by decide⟩,1000,[7]⟩

/-- A list of tags, and a date before 1970, that the check accepts. -/
theorem reads_miss_translation :
    ¬ ReadsAs .standard .standard ⟨"a",by decide⟩ taggedObject { ifMatch := some "abc, def" } ∧
      ¬ ReadsAs .standard .standard ⟨"a",by decide⟩ taggedObject
        { ifModifiedSince := some (-1000000) } := by
  constructor
  · intro h
    have htranslates := (readsAs_content Rules.standard_readsConditionally rfl rfl rfl).mp h (by decide)
    exact absurd (htranslates.ifMatch _ rfl) (by decide)
  · intro h
    have htranslates := (readsAs_content Rules.standard_readsConditionally rfl rfl rfl).mp h (by decide)
    exact absurd (htranslates.ifModifiedSince rfl _ rfl) (by decide)

theorem readsAs_iff_tagged :
    ReadsAs .standard .standard ⟨"a",by decide⟩ taggedObject { ifMatch := some "abc", head := false } ∧
      ReadsAs .standard .standard ⟨"a",by decide⟩ taggedObject { ifMatch := some "abc", head := true } := by
  have hreads : ∀ head, ReadsAs .standard .standard ⟨"a",by decide⟩ taggedObject
      { ifMatch := some "abc", head := head } := by
    refine (readsAs_iff Rules.standard_readsConditionally { ifMatch := some "abc" } rfl rfl).mpr fun _ => ?_
    refine ⟨?_,?_,?_,?_⟩
    · intro tag htag
      cases htag
      exact .inr rfl
    · intro tag htag
      cases htag
    · intro h
      cases h
    · intro _ date hdate
      cases hdate
  exact ⟨hreads false,hreads true⟩

end SlatedbCloudflare.R2Store
