import SlatedbCloudflare.Library.Traversals
import SlatedbCloudflare.Multipart.Handle

/-! # When a handle refuses a call as finished

Histories of calls on one handle, with whatever replies the calls met. A handle
counts as finished from the first `complete` or `abort` on, also if that call
failed; the law that a refused call was preceded by a successful one holds exactly
for histories in which that first call meets no failure.
-/
namespace SlatedbCloudflare.Multipart
open Programs Traversals ObjectStore
variable {Q : Type} {A : Q → Type} {Out : Type}

inductive Call
  | putPart (data : List Bytes)
  | complete
  | abort

def Call.Ends : Call → Prop
  | .putPart _ => False
  | .complete => True
  | .abort => True

abbrev Replies (A : Q → Type) := List ((d : Demand Q) × Supply A d)

structure Entry (A : Q → Type) where
  call : Call
  replies : Replies A
  result : Except Error Unit

def Adapter.call (M : Adapter A Out) (h : Handle) : Call → Handle × UploadM A Out Unit
  | .putPart data => M.putPart h data
  | .complete => ((M.complete h).1,(M.complete h).2 >>= fun _ => pure ())
  | .abort => M.abort h

inductive Calls (M : Adapter A Out) (h : Handle) : List (Entry A) → Handle → Prop
  | nil : Calls M h [] h
  | snoc {es : List (Entry A)} {h' : Handle} (hes : Calls M h es h') (c : Call) {tr : Replies A}
      {os : List Out} {r : Except Error Unit} (hr : Returns (M.call h' c).2 tr os r) :
      Calls M h (es ++ [⟨c,tr,r⟩]) (M.call h' c).1

/-- `Clean` tells from the replies of a `complete` or `abort` whether it succeeds,
and no call that is let through fails as finished. -/
structure Adapter.Decides (M : Adapter A Out) (Clean : Path → String → Call → Replies A → Prop) :
    Prop where
  upload : ∀ l u n data, (M.upload l u n data).Errs (· ≠ multipartFinished l)
  finish : ∀ l u, (M.finish l u).Errs (· ≠ multipartFinished l)
  cancel : ∀ l u, (M.cancel l u).Errs (· ≠ multipartFinished l)
  complete : ∀ l u tr os r, Returns (M.finish l u) tr os r →
    ((∃ v, r = .ok v) ↔ Clean l u .complete tr)
  abort : ∀ l u tr os r, Returns (M.cancel l u) tr os r → ((∃ v, r = .ok v) ↔ Clean l u .abort tr)

/-- A call is refused as finished only after a successful `complete` or `abort`. -/
def RefusesOnlyFinished (location : Path) (es : List (Entry A)) : Prop :=
  ∀ pre e post, es = pre ++ e :: post → e.result = .error (multipartFinished location) →
    ∃ d ∈ pre, d.call.Ends ∧ d.result = .ok ()

/-- The first `complete` or `abort` meets no failure, unless no call follows it. -/
def EndsCleanly (Clean : Path → String → Call → Replies A → Prop) (location : Path)
    (uploadId : String) (es : List (Entry A)) : Prop :=
  ∀ pre e post, es = pre ++ e :: post → e.call.Ends → (∀ d ∈ pre, ¬ d.call.Ends) → post ≠ [] →
    Clean location uploadId e.call e.replies

section
variable {M : Adapter A Out} {h h' : Handle} {es : List (Entry A)}

@[simp] theorem call_location (c : Call) : (M.call h c).1.location = h.location := by
  cases c <;> simp only [Adapter.call, Adapter.putPart, Adapter.complete, Adapter.abort] <;>
    split_ifs <;> rfl

@[simp] theorem call_uploadId (c : Call) : (M.call h c).1.uploadId = h.uploadId := by
  cases c <;> simp only [Adapter.call, Adapter.putPart, Adapter.complete, Adapter.abort] <;>
    split_ifs <;> rfl

theorem call_finished (c : Call) :
    (M.call h c).1.finished = true ↔ h.finished = true ∨ c.Ends := by
  cases c <;> simp only [Adapter.call, Adapter.putPart, Adapter.complete, Adapter.abort] <;>
    split_ifs <;> simp_all [Call.Ends]

theorem Calls.location (hes : Calls M h es h') : h'.location = h.location := by
  induction hes with
  | nil => rfl
  | snoc _ _ _ ih => simp [ih]

theorem Calls.uploadId (hes : Calls M h es h') : h'.uploadId = h.uploadId := by
  induction hes with
  | nil => rfl
  | snoc _ _ _ ih => simp [ih]

/-- A fresh handle is finished exactly after a `complete` or `abort`. -/
theorem Calls.finished (hes : Calls M h es h') (hh : h.finished = false) :
    h'.finished = true ↔ ∃ e ∈ es, e.call.Ends := by
  induction hes with
  | nil => simp [hh]
  | snoc _ _ _ ih =>
    rw [call_finished, ih]
    simp [List.mem_append, or_and_right, exists_or]

theorem Calls.split (hes : Calls M h es h') {pre post : List (Entry A)} {e : Entry A}
    (heq : es = pre ++ e :: post) :
    ∃ g os, Calls M h pre g ∧ Returns (M.call g e.call).2 e.replies os e.result := by
  induction hes generalizing post with
  | nil => simp at heq
  | @snoc es g hes c tr os r hr ih =>
    rcases List.eq_nil_or_concat post with rfl | ⟨post',x,rfl⟩
    · obtain ⟨rfl,hx⟩ := List.append_inj' heq rfl
      cases hx
      exact ⟨g,os,hes,hr⟩
    · have hsnoc : es ++ [⟨c,tr,r⟩] = (pre ++ e :: post') ++ [x] := by simpa using heq
      exact ih (List.append_inj' hsnoc rfl).1

theorem finished_refuses (hf : h.finished = true) (c : Call) {tr : Replies A} {os : List Out}
    {r : Except Error Unit} (hr : Returns (M.call h c).2 tr os r) :
    r = .error (multipartFinished h.location) := by
  have hcall : (M.call h c).2 = .err (multipartFinished h.location) := by
    cases c <;> simp [Adapter.call, Adapter.putPart, Adapter.complete, Adapter.abort, hf]
  rw [hcall] at hr
  exact hr.of_err.2.2

end

section
variable {M : Adapter A Out} {Clean : Path → String → Call → Replies A → Prop} {h : Handle}
  {tr : Replies A} {os : List Out} {r : Except Error Unit}

theorem Adapter.Decides.open_call (hM : M.Decides Clean) (hf : h.finished = false) (c : Call)
    (hr : Returns (M.call h c).2 tr os r) : r ≠ .error (multipartFinished h.location) := by
  rintro rfl
  have hopen : h.finished ≠ true := by simp [hf]
  cases c with
  | putPart data =>
    simp only [Adapter.call, Adapter.putPart, if_neg hopen] at hr
    split at hr
    · cases hr.of_err.2.2
    · exact hr.errs (hM.upload _ _ _ _) rfl
  | complete =>
    simp only [Adapter.call, Adapter.complete, if_neg hopen] at hr
    exact hr.errs ((hM.finish _ _).bind fun _ => trivial) rfl
  | abort =>
    simp only [Adapter.call, Adapter.abort, if_neg hopen] at hr
    exact hr.errs (hM.cancel _ _) rfl

theorem Adapter.Decides.ending_call (hM : M.Decides Clean) (hf : h.finished = false) {c : Call}
    (hc : c.Ends) (hr : Returns (M.call h c).2 tr os r) :
    r = .ok () ↔ Clean h.location h.uploadId c tr := by
  have hopen : h.finished ≠ true := by simp [hf]
  cases c with
  | putPart data => exact hc.elim
  | complete =>
    simp only [Adapter.call, Adapter.complete, if_neg hopen] at hr
    rcases hr.of_bind with ⟨e,rfl,hfinish⟩ | ⟨v,_,_,_,_,rfl,_,hfinish,hend⟩
    · simpa using hM.complete _ _ _ _ _ hfinish
    · obtain ⟨rfl,_,rfl⟩ := hend.of_ok
      simpa using hM.complete _ _ _ _ _ hfinish
  | abort =>
    simp only [Adapter.call, Adapter.abort, if_neg hopen] at hr
    rw [← hM.abort _ _ _ _ _ hr]
    exact ⟨fun h => ⟨(),h⟩,fun ⟨_,h⟩ => h⟩

/-- A handle refuses only what was ended successfully, exactly if its first
`complete` or `abort` succeeds or is its last call. -/
theorem Adapter.Decides.refusesOnlyFinished_iff (hM : M.Decides Clean) {location : Path}
    {uploadId : String} {es : List (Entry A)} {h' : Handle}
    (hes : Calls M (.fresh location uploadId) es h') :
    RefusesOnlyFinished location es ↔ EndsCleanly Clean location uploadId es := by
  constructor
  · intro hlaw pre e post heq hends hfirst hpost
    obtain ⟨g,os,hpre,hr⟩ := hes.split heq
    have hopen : g.finished = false := by
      rw [← Bool.not_eq_true, hpre.finished rfl]
      rintro ⟨d,hd,hdends⟩
      exact hfirst d hd hdends
    have hclean := hM.ending_call hopen hends hr
    rw [hpre.location, hpre.uploadId] at hclean
    apply hclean.mp
    obtain ⟨d,post',rfl⟩ := List.exists_cons_of_ne_nil hpost
    have heq' : es = (pre ++ [e]) ++ d :: post' := by simpa using heq
    obtain ⟨g',os',hpre',hr'⟩ := hes.split heq'
    have hclosed : g'.finished = true := (hpre'.finished rfl).mpr ⟨e,by simp,hends⟩
    have hrefused := finished_refuses hclosed _ hr'
    rw [hpre'.location] at hrefused
    obtain ⟨x,hx,hxends,hxok⟩ := hlaw _ _ _ heq' hrefused
    rcases List.mem_append.mp hx with hx | hx
    · exact absurd hxends (hfirst x hx)
    · rw [List.mem_singleton] at hx
      rw [← hx]
      exact hxok
  · intro hclean pre e post heq hrefused
    obtain ⟨g,os,hpre,hr⟩ := hes.split heq
    have hclosed : g.finished = true := by
      by_contra hopen
      rw [Bool.not_eq_true] at hopen
      have hne := hM.open_call hopen _ hr
      rw [hpre.location] at hne
      exact hne hrefused
    obtain ⟨p₁,x,p₂,rfl,hx,hfirst⟩ := exists_first ((hpre.finished rfl).mp hclosed)
    have heq' : es = p₁ ++ x :: (p₂ ++ e :: post) := by simpa using heq
    obtain ⟨g',os',hpre',hr'⟩ := hes.split heq'
    have hopen : g'.finished = false := by
      rw [← Bool.not_eq_true, hpre'.finished rfl]
      rintro ⟨d,hd,hdends⟩
      exact hfirst d hd hdends
    have hok := hM.ending_call hopen hx hr'
    rw [hpre'.location, hpre'.uploadId] at hok
    exact ⟨x,by simp,hx,hok.mpr (hclean _ _ _ heq' hx hfirst (by simp))⟩

end

end SlatedbCloudflare.Multipart
