import SlatedbCloudflare.Library.Counting
import SlatedbCloudflare.Library.Locks

/-! # Programs whose outputs change the state

A program runs by itself. Its requests are answered on the state, and its outputs
are recorded there.
-/
namespace SlatedbCloudflare.Recording
open Programs Counting Locks

variable {σ τ κ Req : Type} {Resp : Req → Type} {Out ε α : Type}

inductive Performs (serve : σ → (r : Req) → Resp r → σ → Prop) (record : Out → σ → σ) :
    σ → Prog Req Resp Out ε α → Except ε α → σ → Prop
  | ok (s : σ) (a : α) : Performs serve record s (.ok a) (.ok a) s
  | err (s : σ) (e : ε) : Performs serve record s (.err e) (.error e) s
  | emit {s t : σ} {o : Out} {p : Prog Req Resp Out ε α} {r : Except ε α}
      (h : Performs serve record (record o s) p r t) : Performs serve record s (.emit o p) r t
  | call {s u t : σ} {q : Req} {x : Resp q} {k : Resp q → Prog Req Resp Out ε α} {r : Except ε α}
      (hs : serve s q x u) (h : Performs serve record u (k x) r t) : Performs serve record s (.call q k) r t

namespace Performs
variable {serve : σ → (r : Req) → Resp r → σ → Prop} {record : Out → σ → σ} {s t : σ}
  {p : Prog Req Resp Out ε α} {r : Except ε α}

theorem of_ok {a : α} (h : Performs serve record s (.ok a : Prog Req Resp Out ε α) r t) :
    r = .ok a ∧ t = s := by
  cases h
  exact ⟨rfl,rfl⟩

theorem of_err {e : ε} (h : Performs serve record s (.err e : Prog Req Resp Out ε α) r t) :
    r = .error e ∧ t = s := by
  cases h
  exact ⟨rfl,rfl⟩

theorem of_emit {o : Out} (h : Performs serve record s (.emit o p) r t) :
    Performs serve record (record o s) p r t := by
  cases h with
  | emit h => exact h

theorem of_call {q : Req} {k : Resp q → Prog Req Resp Out ε α}
    (h : Performs serve record s (.call q k) r t) :
    ∃ x u, serve s q x u ∧ Performs serve record u (k x) r t := by
  cases h with
  | call hs h => exact ⟨_,_,hs,h⟩

/-- What holds between the states around each answer and each output, and carries over
from step to step, holds around the run. -/
theorem relates {R : σ → σ → Prop} (h : Performs serve record s p r t) (hrefl : ∀ s, R s s)
    (htrans : ∀ s u t, R s u → R u t → R s t) (hserve : ∀ s q x u, serve s q x u → R s u)
    (hrecord : ∀ o s, R s (record o s)) : R s t := by
  induction h with
  | ok s a => exact hrefl s
  | err s e => exact hrefl s
  | emit _ ih => exact htrans _ _ _ (hrecord _ _) ih
  | call hs _ ih => exact htrans _ _ _ (hserve _ _ _ _ hs) ih

/-- Seen through a map that outputs do not change, a run is a chain of answers. Each
answer was given between two states that relate to those around the run. -/
theorem returns {serve' : τ → (r : Req) → Resp r → τ → Prop} {R : σ → σ → Prop}
    (h : Performs serve record s p r t) (view : σ → τ) (hview : ∀ o s, view (record o s) = view s)
    (hserve : ∀ s q x u, serve s q x u → serve' (view s) q x (view u)) (hrefl : ∀ s, R s s)
    (htrans : ∀ s u t, R s u → R u t → R s t) (hstep : ∀ s q x u, serve s q x u → R s u)
    (hrecord : ∀ o s, R s (record o s)) :
    ∃ tr os, Returns p tr os r ∧ Chain serve' (view s) tr (view t) ∧
      ∀ x ∈ tr, ∃ u v, R s u ∧ serve u x.1 x.2 v ∧ R v t := by
  induction h with
  | ok s a => exact ⟨[],[],.refl _,.nil _,nofun⟩
  | err s e => exact ⟨[],[],.refl _,.nil _,nofun⟩
  | emit _ ih =>
    obtain ⟨tr,os,hr,hc,hbetween⟩ := ih
    rw [hview] at hc
    refine ⟨tr,_,.emit hr,hc,fun x hx => ?_⟩
    obtain ⟨u,v,hu,hs,hv⟩ := hbetween x hx
    exact ⟨u,v,htrans _ _ _ (hrecord _ _) hu,hs,hv⟩
  | call hs h ih =>
    obtain ⟨tr,os,hr,hc,hbetween⟩ := ih
    refine ⟨_,os,.call hr,.cons (hserve _ _ _ _ hs) hc,fun x hx => ?_⟩
    rcases List.mem_cons.mp hx with rfl | hx
    · exact ⟨_,_,hrefl _,hs,h.relates hrefl htrans hstep hrecord⟩
    · obtain ⟨u,v,hu,hs',hv⟩ := hbetween x hx
      exact ⟨u,v,htrans _ _ _ (hstep _ _ _ _ hs) hu,hs',hv⟩

theorem bind_ok {β : Type} {f : α → Prog Req Resp Out ε β} {a : α} {u : σ} {r : Except ε β}
    (h : Performs serve record s p (.ok a) u) (hf : Performs serve record u (f a) r t) :
    Performs serve record s (p >>= f) r t := by
  induction p generalizing s with
  | ok b =>
    obtain ⟨hb,rfl⟩ := h.of_ok
    cases hb
    exact hf
  | err e =>
    obtain ⟨he,_⟩ := h.of_err
    cases he
  | emit o p ih => exact .emit (ih h.of_emit)
  | call q k ih =>
    obtain ⟨x,v,hs,hk⟩ := h.of_call
    exact .call hs (ih x hk)

theorem bind_error {β : Type} {f : α → Prog Req Resp Out ε β} {e : ε}
    (h : Performs serve record s p (.error e) t) : Performs serve record s (p >>= f) (.error e) t := by
  induction p generalizing s with
  | ok b =>
    obtain ⟨hb,_⟩ := h.of_ok
    cases hb
  | err e' =>
    obtain ⟨he,rfl⟩ := h.of_err
    cases he
    exact .err _ _
  | emit o p ih => exact .emit (ih h.of_emit)
  | call q k ih =>
    obtain ⟨x,v,hs,hk⟩ := h.of_call
    exact .call hs (ih x hk)

section Mutex
variable {ι : Type} {i : ι} {record' : Out → σ × Option ι → σ × Option ι}

/-- What runs without the mutex runs while anyone holds it. -/
theorem free (hrecord : ∀ o s g, record' o (s,g) = (record o s,g)) (h : Performs serve record s p r t)
    (g : Option ι) : Performs (Alone serve i) record' (s,g) (Locks.free p) r (t,g) := by
  induction h with
  | ok s a => exact .ok _ a
  | err s e => exact .err _ e
  | emit _ ih =>
    refine .emit ?_
    rw [hrecord]
    exact ih
  | @call s u t q x k r hs _ ih => exact .call (u := (u,g)) ⟨hs,rfl⟩ ih

theorem withLock (hrecord : ∀ o s g, record' o (s,g) = (record o s,g)) (h : Performs serve record s p r t) :
    Performs (Alone serve i) record' (s,none) (Locks.withLock p) r (t,none) := by
  have hrelease : Performs (Alone serve i) record' (s,some i) (release p) r (t,none) := by
    induction h with
    | ok s a => exact .call (x := ()) (u := (s,none)) ⟨rfl,rfl,rfl⟩ (.ok _ a)
    | err s e => exact .call (x := ()) (u := (s,none)) ⟨rfl,rfl,rfl⟩ (.err _ e)
    | emit _ ih =>
      refine .emit ?_
      rw [hrecord]
      exact ih
    | @call s u t q x k r hs _ ih => exact .call (u := (u,some i)) ⟨hs,rfl⟩ ih
  exact .call (x := ()) (u := (s,some i)) ⟨rfl,rfl,rfl⟩ hrelease

end Mutex

end Performs

def Raises [DecidableEq κ] (movable : κ → Prop) (m n : κ → ℕ) : Prop :=
  ∃ os : List (κ × ℕ), (∀ o ∈ os, movable o.1) ∧ ∀ c, n c = m c + raised c os

section Raises
variable [DecidableEq κ] {movable : κ → Prop} {m n : κ → ℕ}

theorem Raises.refl (m : κ → ℕ) : Raises movable m m :=
  ⟨[],nofun,fun _ => rfl⟩

theorem Raises.le (h : Raises movable m n) (c : κ) : m c ≤ n c := by
  obtain ⟨os,_,hn⟩ := h
  rw [hn]
  exact Nat.le_add_right _ _

end Raises

end SlatedbCloudflare.Recording
