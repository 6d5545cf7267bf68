import SlatedbCloudflare.Platform.Effects
import SlatedbCloudflare.DurableObject.R2Store

/-! # Conditional writes of the Durable Object under concurrency

Any number of writers share one bucket. Their R2 requests interleave freely and
acknowledgements may be lost. The contract is compare-and-swap; it holds exactly
when every conditional update names an ETag to compare with.
-/
namespace SlatedbCloudflare.R2Store
open Programs Messages ObjectStore R2 Perf

/-- A call a writer makes: `put_opts`, `copy_opts`, or any other use of the binding. -/
inductive Write
  | put (location : Path) (payload : List Bytes) (mode : PutMode)
  | copy (source target : Path) (mode : CopyMode)
  | other (p : R2M Unit)

def Write.prog (lib : Crate) : Write → R2M Unit
  | .put location payload mode => putOpts location payload mode >>= fun _ => pure ()
  | .copy source target mode => copyOpts lib source target mode
  | .other p => p

abbrev BucketEvent (ι : Type) := Event ι State Request Reply

section Contract
variable {ι : Type} (es : List (BucketEvent ι)) (i : ι)

/-- The compare-and-swap verdict on a writer that returned `r`. -/
def Write.Verdict (w : Write) (r : Except Error Unit) : Prop :=
  match w with
  | .put location _ .create => (r = .ok () → Stores es i location.raw (· = none)) ∧
      ∀ e, r = .error e → e.Refuses → Untouched es i
  | .put location _ (.update version) =>
      (r = .ok () → ∃ tag, version.eTag = some tag ∧
        Stores es i location.raw (fun o => ∃ old, o = some old ∧ old.etag.val = tag)) ∧
      ∀ e, r = .error e → e.Refuses → Untouched es i
  | .put _ _ .overwrite => ∀ e, r = .error e → e.Refuses → Untouched es i
  | .copy _ target .create => (r = .ok () → Stores es i target.raw (· = none)) ∧
      ∀ e, r = .error e → e.Refuses → Untouched es i
  | .copy _ _ .overwrite => ∀ e, r = .error e → e.Refuses → Untouched es i
  | .other _ => True

end Contract

/-- Conditional writes are compare-and-swap, for all initial buckets and all
interleavings of the given writers. -/
def CompareAndSwap {ι : Type} [DecidableEq ι] (R : Rules) (lib : Crate) (w : ι → Write) : Prop :=
  ∀ (s : State) (es : List (BucketEvent ι)) (t : System ι State Request Reply Increment Error Unit),
    Run (binding R) (start s (fun i => (w i).prog lib)) es t →
      ∀ i r, (t.client i).prog = .ofResult r → (w i).Verdict es i r

/-- An update names an ETag other than the wildcard, or only a version. -/
def Write.ComparesETag : Write → Prop
  | .put _ _ (.update version) =>
    (version.eTag = none → version.version ≠ none) ∧ version.eTag ≠ some "*"
  | _ => True

inductive PutOutcome (location : Path) (bytes : Bytes) (mode : PutMode) :
    List ((r : Request) × Reply r) → Except Error PutResult → Prop
  | unbound (e : String) :
      PutOutcome location bytes mode [⟨.bucket,.error e⟩] (.error (generic e))
  | unsupported {e : Error} (h : putConditional mode = .error e) :
      PutOutcome location bytes mode [⟨.bucket,.ok ()⟩] (.error e)
  | failed {c : Option Conditional} (h : putConditional mode = .ok c) (e : String) :
      PutOutcome location bytes mode
        [⟨.bucket,.ok ()⟩,⟨.put location.raw bytes (onlyIf c),.error e⟩] (.error (generic e))
  | refused {c : Option Conditional} (h : putConditional mode = .ok c) :
      PutOutcome location bytes mode
        [⟨.bucket,.ok ()⟩,⟨.put location.raw bytes (onlyIf c),.ok none⟩]
        (.error (failedPutPrecondition location mode))
  | stored {c : Option Conditional} (h : putConditional mode = .ok c) (o : Object) :
      PutOutcome location bytes mode
        [⟨.bucket,.ok ()⟩,⟨.put location.raw bytes (onlyIf c),.ok (some o)⟩]
        (.ok { eTag := some o.etag.val, version := some o.version })

theorem putBytes_returns {location : Path} {bytes : Bytes} {mode : PutMode}
    {tr : List ((r : Request) × Reply r)} {os : List Increment} {r : Except Error PutResult}
    (h : Returns (putBytes location bytes mode) tr os r) : PutOutcome location bytes mode tr r := by
  simp only [putBytes, increment, bucket, r2, Prog.tell_bind, Prog.ask_bind, Prog.call_bind] at h
  obtain ⟨_,_,h₁⟩ := h.of_emit
  obtain ⟨x,tr,rfl,h₂⟩ := h₁.of_call
  cases x with
  | error e =>
    obtain ⟨rfl,_,rfl⟩ := h₂.of_err
    exact .unbound e
  | ok u =>
    cases hc : putConditional mode with
    | error e =>
      simp only [hc, Prog.orElse_error, Prog.err_bind] at h₂
      obtain ⟨rfl,_,rfl⟩ := h₂.of_err
      exact .unsupported hc
    | ok c =>
      simp only [Prog.orElse_ok, Prog.ok_bind, hc] at h₂
      obtain ⟨y,tr,rfl,h₃⟩ := h₂.of_call
      rcases y with e | o
      · obtain ⟨_,_,h₄⟩ := h₃.of_emit
        obtain ⟨rfl,_,rfl⟩ := h₄.of_err
        exact .failed hc e
      · cases o with
        | none =>
          obtain ⟨rfl,_,rfl⟩ := h₃.of_err
          exact .refused hc
        | some o =>
          obtain ⟨_,_,h₄⟩ := h₃.of_emit
          obtain ⟨rfl,_,rfl⟩ := h₄.of_ok
          exact .stored hc o

theorem getInner_asks_of {P : Request → Prop} {location : Path} (lib : Crate) (options : GetOptions)
    (hbucket : P .bucket) (hbody : ∀ bytes, P (.body bytes)) (hhead : P (.head (key location)))
    (hget : ∀ c range, P (.get (key location) c range)) : (getInner lib location options).Asks P := by
  have hasked : ∀ r, P r → (r2 r).Asks P := fun r hr => ⟨hr,fun x => by cases x <;> trivial⟩
  have hfetch : (fetchObject lib (key location) options).Asks P := by
    unfold fetchObject
    split
    · exact (hasked _ hhead).bind fun _ => trivial
    · cases hr : options.range with
      | none => exact hasked _ (hget _ _)
      | some range =>
        cases ht : toR2Range lib range with
        | error e => simp only [ht]; exact trivial
        | ok r =>
          simp only [ht, Prog.orElse_ok, Prog.ok_bind, Prog.pure_eq]
          exact hasked _ (hget _ _)
  unfold getInner
  refine Prog.Asks.bind trivial fun _ => ?_
  split
  · trivial
  · refine .bind ⟨hbucket,fun x => by cases x <;> trivial⟩ fun _ => .bind hfetch fun found => ?_
    rcases found with _ | ⟨object,body⟩
    · trivial
    · refine .bind (by cases lib.checkPreconditions options _ <;> trivial) fun _ => ?_
      refine .bind (by cases returnedRange lib options.range _ <;> trivial) fun range => ?_
      split
      · trivial
      · cases body with
        | none => trivial
        | some body => exact (hasked _ (hbody body)).bind fun _ => trivial

theorem getInner_asks (lib : Crate) (location : Path) (options : GetOptions) :
    (getInner lib location options).Asks Request.IsRead :=
  getInner_asks_of lib options trivial (fun _ => trivial) trivial fun _ _ => trivial

section Verdicts
variable {ι : Type} {R : Rules} {es : List (BucketEvent ι)} {i : ι}
  {tr : List ((r : Request) × Reply r)}

theorem quiet_of_read {x : (r : Request) × Reply r} (hx : x.1.IsRead) : Quiet (binding R) x :=
  .inl fun _ _ _ h => h.read hx

theorem quiet_of_refused (key : String) (bytes : Bytes) (c : OnlyIf) :
    Quiet (binding R) ⟨.put key bytes c,.ok none⟩ := by
  refine .inr ⟨?_,?_⟩
  · rintro ⟨_,h⟩
    cases h
  · intro s t h
    rcases h.does with ⟨_,_,h⟩ | ⟨_,o,_,_,h,_⟩
    · exact h
    · cases h

/-- A put that R2 acknowledged with an object is the one change of its writer,
and found its condition to hold. -/
theorem stores_of_history (hh : History (binding R) es i tr)
    {pre : List ((r : Request) × Reply r)} {key : String} {bytes : Bytes} {c : OnlyIf} {o : Object}
    (ht : tr = pre ++ [⟨.put key bytes c,.ok (some o)⟩]) (hpre : ∀ x ∈ pre, x.1.IsRead) :
    Stores es i key (fun found => R.evaluate c found = some true) := by
  obtain ⟨e,he,hi,ha,hother⟩ := hh.last pre ht (fun y hy => quiet_of_read (hpre y hy))
    (by rintro ⟨_,h⟩; cases h)
  refine ⟨e,he,hi,?_⟩
  have hserve := hh.serves e he
  obtain ⟨caller,index,req,reply,before,after⟩ := e
  cases ha
  rcases hserve.does with ⟨_,h,_⟩ | ⟨heval,o',hkey,_,_,hafter⟩
  · cases h
  · exact ⟨heval,⟨o',hkey,hafter⟩,hother⟩

/-- What a finished put tells about the bucket, before its mode is looked at. -/
theorem put_history {location : Path} {bytes : Bytes} {mode : PutMode}
    {pre : List ((r : Request) × Reply r)} {r : Except Error PutResult}
    (hh : History (binding R) es i (pre ++ tr)) (hpre : ∀ x ∈ pre, x.1.IsRead)
    (h : PutOutcome location bytes mode tr r) :
    (∀ a, r = .ok a → ∃ c, putConditional mode = .ok c ∧
      Stores es i location.raw (fun found => R.evaluate (onlyIf c) found = some true)) ∧
    (∀ e, r = .error e → e.Refuses → Untouched es i) := by
  have hbucket : ∀ y : Reply .bucket, Quiet (binding R) ⟨.bucket,y⟩ := fun _ => quiet_of_read trivial
  have hquiet : ∀ x ∈ pre, Quiet (binding R) x := fun x hx => quiet_of_read (hpre x hx)
  cases h with
  | unbound e => exact ⟨fun a h => (by cases h),fun e h => (by cases h; exact False.elim)⟩
  | unsupported hc =>
    refine ⟨fun a h => (by cases h),fun _ _ _ => hh.untouched ?_⟩
    exact List.forall_mem_append.mpr ⟨hquiet,List.forall_mem_singleton.mpr (hbucket _)⟩
  | failed hc e => exact ⟨fun a h => (by cases h),fun e h => (by cases h; exact False.elim)⟩
  | refused hc =>
    refine ⟨fun a h => (by cases h),fun _ _ _ => hh.untouched ?_⟩
    refine List.forall_mem_append.mpr ⟨hquiet,List.forall_mem_cons.mpr ⟨hbucket _,?_⟩⟩
    exact List.forall_mem_singleton.mpr (quiet_of_refused _ _ _)
  | stored hc o =>
    refine ⟨fun a _ => ⟨_,hc,?_⟩,fun e h => (by cases h)⟩
    refine stores_of_history hh (List.append_cons pre _ _) ?_
    exact List.forall_mem_append.mpr ⟨hpre,List.forall_mem_singleton.mpr trivial⟩

theorem putOpts_history {location : Path} {payload : List Bytes} {mode : PutMode}
    (pre : List ((r : Request) × Reply r)) {os : List Increment} {r : Except Error Unit}
    (hh : History (binding R) es i (pre ++ tr)) (hpre : ∀ x ∈ pre, x.1.IsRead)
    (h : Returns (putOpts location payload mode >>= fun _ => pure ()) tr os r) :
    (r = .ok () → ∃ c, putConditional mode = .ok c ∧
      Stores es i location.raw (fun found => R.evaluate (onlyIf c) found = some true)) ∧
    (∀ e, r = .error e → e.Refuses → Untouched es i) := by
  rcases h.of_bind with ⟨e,rfl,hput⟩ | ⟨a,tr₁,tr₂,os₁,os₂,rfl,rfl,hput,hend⟩
  · have hresult := put_history hh hpre (putBytes_returns hput)
    refine ⟨fun h => (by cases h),fun e' h => ?_⟩
    cases h
    exact hresult.2 e rfl
  · obtain ⟨rfl,_,rfl⟩ := hend.of_ok
    rw [List.append_nil] at hh
    have hresult := put_history hh hpre (putBytes_returns hput)
    exact ⟨fun _ => hresult.1 a rfl,fun e h => (by cases h)⟩

theorem copyOpts_history {lib : Crate} {source target : Path} {mode : CopyMode} {os : List Increment}
    {r : Except Error Unit} (hh : History (binding R) es i tr)
    (h : Returns (copyOpts lib source target mode) tr os r) :
    (r = .ok () → ∃ c, putConditional (copyMode mode) = .ok c ∧
      Stores es i target.raw (fun found => R.evaluate (onlyIf c) found = some true)) ∧
    (∀ e, r = .error e → e.Refuses → Untouched es i) := by
  rcases h.of_bind with ⟨e,rfl,hget⟩ | ⟨got,tr₁,tr₂,os₁,os₂,rfl,rfl,hget,hput⟩
  · have hreads := hget.asks (getInner_asks lib source {})
    refine ⟨fun h => (by cases h),fun _ _ _ => hh.untouched fun x hx => ?_⟩
    exact quiet_of_read (hreads x hx)
  · exact putOpts_history _ hh (hget.asks (getInner_asks lib source {})) hput

theorem putConditional_update {version : UpdateVersion} {c : Option Conditional}
    (hnone : version.eTag = none → version.version ≠ none)
    (hc : putConditional (.update version) = .ok c) :
    ∃ tag, version.eTag = some tag ∧ c = some { etagMatches := some tag } := by
  obtain ⟨eTag,ver⟩ := version
  cases eTag with
  | some tag =>
    simp only [putConditional, Option.isNone_some, Bool.and_false] at hc
    exact ⟨tag,rfl,by cases hc; rfl⟩
  | none =>
    obtain ⟨v,rfl⟩ := Option.ne_none_iff_exists'.mp (hnone rfl)
    cases hc

/-- A writer that compares an ETag where it updates gets the verdict. -/
theorem Write.verdict {lib : Crate} {w : Write} {os : List Increment} {r : Except Error Unit}
    (hw : w.ComparesETag) (hh : History (binding R) es i tr) (h : Returns (w.prog lib) tr os r) :
    w.Verdict es i r := by
  have hcreate : ∀ key, (∃ c, putConditional .create = .ok c ∧
      Stores es i key (fun found => R.evaluate (onlyIf c) found = some true)) →
      Stores es i key (· = none) := by
    rintro key ⟨c,hc,hs⟩
    cases hc
    refine hs.imp fun o ho => ?_
    rw [onlyIf, R.evaluate_create] at ho
    simpa using ho
  cases w with
  | other p => trivial
  | put location payload mode =>
    obtain ⟨hok,herr⟩ := putOpts_history [] hh (by simp) h
    cases mode with
    | overwrite => exact herr
    | create => exact ⟨fun hr => hcreate _ (hok hr),herr⟩
    | update version =>
      refine ⟨fun hr => ?_,herr⟩
      obtain ⟨c,hc,hs⟩ := hok hr
      obtain ⟨tag,htag,rfl⟩ := putConditional_update hw.1 hc
      refine ⟨tag,htag,hs.imp fun o ho => ?_⟩
      have hstar : tag ≠ "*" := fun h => hw.2 (by rw [htag,h])
      rw [onlyIf, R.evaluate_match _ _ hstar] at ho
      simpa [Option.any_eq_true] using ho
  | copy source target mode =>
    obtain ⟨hok,herr⟩ := copyOpts_history hh h
    cases mode with
    | overwrite => exact herr
    | create => exact ⟨fun hr => hcreate _ (hok hr),herr⟩

theorem put_alone (lib : Crate) {location : Path} (payload : List Bytes) {mode : PutMode}
    {c : Option Conditional} (s : State) (hc : putConditional mode = .ok c)
    (hs : R.evaluate (onlyIf c) (s.objects location.raw) = some true) (i : ι) :
    ∃ es t m, Alone (binding R) i s 0 ((Write.put location payload mode).prog lib) es t m (.ok ()) ∧
      ∀ e ∈ es, e.before = s := by
  let stored : Object := ⟨location.raw,"",⟨"",rfl⟩,0,collectPayload payload⟩
  have hbucket : Serve R s .bucket (.ok ()) s := .served rfl
  have hput : Serve R s (.put location.raw (collectPayload payload) (onlyIf c)) (.ok (some stored))
      (s.store stored) := .served (.inr ⟨hs,stored,rfl,rfl,rfl,rfl⟩)
  refine ⟨[⟨i,0,.bucket,.ok (),s,s⟩,⟨i,1,.put location.raw (collectPayload payload) (onlyIf c),
    .ok (some stored),s,s.store stored⟩],s.store stored,2,?_,by simp⟩
  simp only [Write.prog, putOpts, putBytes, increment, bucket, r2, Prog.tell_bind, Prog.ask_bind,
    Prog.call_bind, Prog.emit_bind]
  refine .emit (.call hbucket ?_)
  simp only [hc, Prog.orElse_ok, Prog.ok_bind]
  exact .call hput (.emit (.refl _ _ _))

end Verdicts

theorem verdict_of_put_alone {ι : Type} [DecidableEq ι] {R : Rules} {lib : Crate} {w : ι → Write}
    (h : CompareAndSwap R lib w) {i : ι} {location : Path} {payload : List Bytes}
    {version : UpdateVersion} {c : Option Conditional} (hw : w i = .put location payload (.update version))
    (s : State) (hc : putConditional (.update version) = .ok c)
    (hs : R.evaluate (onlyIf c) (s.objects location.raw) = some true) :
    ∃ tag, version.eTag = some tag ∧ ∃ old, s.objects location.raw = some old ∧ old.etag.val = tag := by
  obtain ⟨es,t,m,halone,hbefore⟩ := put_alone lib payload s hc hs i
  rw [← hw] at halone
  obtain ⟨T,hrun,_,hT,_⟩ := halone.run (start s (fun j => (w j).prog lib)) rfl rfl
  have hverdict := h s es T hrun i (.ok ()) (by rw [hT]; rfl)
  rw [hw] at hverdict
  obtain ⟨tag,htag,e,he,_,hfound,_⟩ := hverdict.1 rfl
  rw [hbefore e he] at hfound
  exact ⟨tag,htag,hfound⟩

/-- The adapter is compare-and-swap exactly for writers whose updates compare an
ETag: an update with neither ETag nor version overwrites whatever it finds. -/
theorem compareAndSwap_iff {ι : Type} [DecidableEq ι] (R : Rules) (lib : Crate) (w : ι → Write) :
    CompareAndSwap R lib w ↔ ∀ i, (w i).ComparesETag := by
  constructor
  · intro h i
    cases hw : w i with
    | other p => trivial
    | copy source target mode => trivial
    | put location payload mode =>
      cases mode with
      | overwrite | create => trivial
      | update version =>
        obtain ⟨eTag,ver⟩ := version
        refine ⟨?_,?_⟩
        · rintro rfl rfl
          obtain ⟨tag,htag,_⟩ := verdict_of_put_alone h hw ⟨fun _ => none,fun _ => none⟩ rfl
            (R.evaluate_empty _)
          cases htag
        · rintro rfl
          let held : Object := ⟨location.raw,"",⟨"",rfl⟩,0,[]⟩
          obtain ⟨tag,htag,old,hold,hval⟩ := verdict_of_put_alone h hw
            (c := some { etagMatches := some "*" }) ⟨fun _ => some held,fun _ => none⟩
            (by simp [putConditional]) (R.evaluate_any _)
          cases htag
          cases hold
          exact absurd hval (show "" ≠ "*" by decide)
  · intro hw s es t hrun i r hr
    obtain ⟨tr,os,hret,hh,_⟩ := hrun.history hr
    exact Write.verdict (hw i) hh hret

/-- One writer updates the key `manifest/0` and supplies neither ETag nor version. -/
theorem update_without_etag_overwrites : ¬ CompareAndSwap Rules.standard Crate.standard
    (fun _ : Unit => .put ⟨"manifest/0",by decide⟩ [[1]] (.update ⟨none,none⟩)) := by
  intro h
  let held : Object := ⟨"manifest/0","1",⟨"abc",by decide⟩,0,[0]⟩
  obtain ⟨tag,htag,_⟩ := verdict_of_put_alone h (i := ()) rfl ⟨fun _ => some held,fun _ => none⟩ rfl
    (Rules.standard.evaluate_empty _)
  cases htag

end SlatedbCloudflare.R2Store
