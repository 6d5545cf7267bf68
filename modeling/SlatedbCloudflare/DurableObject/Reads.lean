import SlatedbCloudflare.DurableObject.R2Store

/-! # What the reads of the Durable Object's store can do -/
namespace SlatedbCloudflare.R2Store
open Programs ObjectStore R2 Perf

section
variable {lib : Crate} {tr : List ((r : Request) × Reply r)} {os : List Increment}

/-- The range that a read asks R2 for. -/
def readRange (lib : Crate) (options : GetOptions) : Except Error ReadRange :=
  match options.range with
  | some range => (toR2Range lib range).map .range
  | none => .ok .whole

def readCondition (options : GetOptions) : OnlyIf :=
  if readConditional options ≠ {} then .conditional (readConditional options) else .none

theorem fetchObject_eq {k : String} {options : GetOptions} (hplain : plainHead options = false) :
    fetchObject lib k options =
      Prog.orElse (readRange lib options) .err >>= fun range => r2 (.get k (readCondition options) range) := by
  rw [fetchObject, if_neg (by simp [hplain]), readRange, readCondition]
  cases options.range with
  | none => rfl
  | some range =>
    cases hr : toR2Range lib range with
    | error e =>
      simp only [hr]
      rfl
    | ok r =>
      simp only [hr]
      rfl

theorem getInner_content {location : Path} {options : GetOptions} {result : GetResult}
    (hhead : options.head = false) (h : Returns (getInner lib location options) tr os (.ok result)) :
    ∃ range object body, readRange lib options = .ok range ∧
      tr = [⟨.bucket,.ok ()⟩,⟨.get (key location) (readCondition options) range,.ok (some (object,some body))⟩,
        ⟨.body body,.ok result.payload⟩] ∧
      result.metadata = objectMeta lib location object ∧
      returnedRange lib options.range object.size = .ok result.range := by
  have hplain : plainHead options = false := by simp [plainHead, hhead]
  unfold getInner at h
  obtain ⟨_,_,h₁⟩ := h.of_emit
  split at h₁
  · obtain ⟨_,_,hr⟩ := h₁.of_err
    cases hr
  change Returns (bucket >>= _) _ _ _ at h₁
  obtain ⟨_,tr₀,tr',_,_,rfl,_,hbucket,h₂⟩ := h₁.of_bind_ok
  rw [fetchObject_eq hplain] at h₂
  obtain ⟨found,tr₁,tr₂,_,_,rfl,_,hfetch,h₃⟩ := h₂.of_bind_ok
  obtain ⟨range,hrange,hget⟩ := Returns.of_orElse hfetch
  rcases found with _ | ⟨object,body⟩
  · obtain ⟨_,_,hr⟩ := h₃.of_err
    cases hr
  obtain ⟨_,_,h₄⟩ := Returns.of_orElse h₃
  obtain ⟨bounds,hbounds,h₅⟩ := Returns.of_orElse h₄
  rw [hhead] at h₅
  cases body with
  | none =>
    obtain ⟨_,_,hr⟩ := h₅.of_err
    cases hr
  | some body =>
    obtain ⟨bytes,tr₃,tr₄,_,_,rfl,_,hbody,h₆⟩ := h₅.of_bind_ok
    obtain ⟨_,_,h₇⟩ := h₆.of_emit
    obtain ⟨rfl,_,hr⟩ := h₇.of_ok
    cases hr
    refine ⟨range,object,body,hrange,?_,rfl,hbounds⟩
    rw [bucket_returns hbucket, r2_returns hget, r2_returns hbody]
    rfl

end

end SlatedbCloudflare.R2Store
