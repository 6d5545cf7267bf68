import SlatedbCloudflare.Library.Programs
import Mathlib.Algebra.Order.Ring.Nat

/-! # Counters raised by programs

An output `(c,n)` raises the counter `c` by `n`. Replies that stand for a failure
are judged along with the counter that should record them.
-/
namespace SlatedbCloudflare.Counting
open Programs

section Raised
variable {κ : Type} [DecidableEq κ] (c : κ)

def raised (os : List (κ × ℕ)) : ℕ := ((os.filter (fun o => o.1 = c)).map Prod.snd).sum

@[simp] theorem raised_nil : raised c [] = 0 := rfl

theorem raised_append (os os' : List (κ × ℕ)) : raised c (os ++ os') = raised c os + raised c os' := by
  simp [raised]

@[simp] theorem raised_cons_self (n : ℕ) (os : List (κ × ℕ)) :
    raised c ((c,n) :: os) = n + raised c os := by
  simp [raised]

theorem raised_cons_ne {d : κ} (h : d ≠ c) (n : ℕ) (os : List (κ × ℕ)) :
    raised c ((d,n) :: os) = raised c os := by
  simp [raised, h]

theorem raised_eq_zero {os : List (κ × ℕ)} (h : ∀ o ∈ os, o.1 ≠ c) : raised c os = 0 := by
  have hnil : os.filter (fun o => o.1 = c) = [] := by
    rw [List.filter_eq_nil_iff]
    intro o ho
    simpa using h o ho
  rw [raised, hnil]
  rfl

end Raised

section Judgements
variable {Req : Type} {Resp : Req → Type} {κ ε α β : Type} [DecidableEq κ] {c : κ}
  {failing unseen : (r : Req) × Resp r → Prop}

/-- A failure makes the call fail, and is counted once unless it is unseen. A call that
succeeds counts nothing. -/
structure Judged (c : κ) (failing unseen : Prop) (os : List (κ × ℕ)) (r : Except ε α) : Prop where
  fails : failing → ∃ e, r = .error e
  counted : failing → ¬ unseen → raised c os = 1
  uncounted : failing → unseen → raised c os = 0
  succeeded : (∃ a, r = .ok a) → raised c os = 0

theorem Judged.map {f : α → β} {failing unseen : Prop} {os : List (κ × ℕ)} {r : Except ε α}
    (h : Judged c failing unseen os r) : Judged c failing unseen os (r.map f) where
  fails hf := by
    obtain ⟨e,rfl⟩ := h.fails hf
    exact ⟨e,rfl⟩
  counted := h.counted
  uncounted := h.uncounted
  succeeded := by
    rintro ⟨b,hb⟩
    cases r with
    | error e => cases hb
    | ok a => exact h.succeeded ⟨a,rfl⟩

def Tallies (c : κ) (failing unseen : (r : Req) × Resp r → Prop)
    (p : Prog Req Resp (κ × ℕ) ε α) : Prop :=
  ∀ tr os r, Returns p tr os r → Judged c (∃ x ∈ tr, failing x) (∃ x ∈ tr, unseen x) os r

theorem Tallies.ok (a : α) : Tallies c failing unseen (.ok a : Prog Req Resp (κ × ℕ) ε α) := by
  intro tr os r h
  obtain ⟨rfl,rfl,rfl⟩ := h.of_ok
  exact ⟨by simp,by simp,by simp,fun _ => rfl⟩

theorem Tallies.err (e : ε) : Tallies c failing unseen (.err e : Prog Req Resp (κ × ℕ) ε α) := by
  intro tr os r h
  obtain ⟨rfl,rfl,rfl⟩ := h.of_err
  exact ⟨by simp,by simp,by simp,fun _ => rfl⟩

theorem Tallies.emit {d : κ} (hd : d ≠ c) (n : ℕ) {p : Prog Req Resp (κ × ℕ) ε α}
    (hp : Tallies c failing unseen p) : Tallies c failing unseen (.emit (d,n) p) := by
  intro tr os r h
  obtain ⟨os',rfl,hnext⟩ := h.of_emit
  obtain ⟨h₁,h₂,h₃,h₄⟩ := hp tr os' r hnext
  refine ⟨h₁,?_,?_,?_⟩
  · rwa [raised_cons_ne c hd]
  · rwa [raised_cons_ne c hd]
  · rwa [raised_cons_ne c hd]

/-- A request whose failure ends the program. -/
theorem Tallies.call {q : Req} {k : Resp q → Prog Req Resp (κ × ℕ) ε α}
    (hgood : ∀ x, ¬ failing ⟨q,x⟩ → ¬ unseen ⟨q,x⟩ ∧ Tallies c failing unseen (k x))
    (hbad : ∀ x, failing ⟨q,x⟩ → ∀ tr os r, Returns (k x) tr os r →
      tr = [] ∧ Judged c True (unseen ⟨q,x⟩) os r) :
    Tallies c failing unseen (.call q k) := by
  intro tr os r h
  obtain ⟨x,tr',rfl,hnext⟩ := h.of_call
  by_cases hx : failing ⟨q,x⟩
  · obtain ⟨rfl,hj⟩ := hbad x hx tr' os r hnext
    have hunseen : (∃ y ∈ [(⟨q,x⟩ : (r : Req) × Resp r)], unseen y) ↔ unseen ⟨q,x⟩ := by simp
    rw [hunseen]
    exact ⟨fun _ => hj.fails trivial,fun _ => hj.counted trivial,fun _ => hj.uncounted trivial,hj.succeeded⟩
  · obtain ⟨hu,hk⟩ := hgood x hx
    have hrest := hk tr' os r hnext
    have hfailing : (∃ y ∈ (⟨q,x⟩ : (r : Req) × Resp r) :: tr', failing y) ↔ ∃ y ∈ tr', failing y := by
      simp [hx]
    have hunseen : (∃ y ∈ (⟨q,x⟩ : (r : Req) × Resp r) :: tr', unseen y) ↔ ∃ y ∈ tr', unseen y := by
      simp [hu]
    rw [hfailing, hunseen]
    exact hrest

/-- What follows a program counts only if nothing failed before. -/
theorem Tallies.bind {p : Prog Req Resp (κ × ℕ) ε α} {f : α → Prog Req Resp (κ × ℕ) ε β}
    (hsub : ∀ x, unseen x → failing x) (hp : Tallies c failing unseen p)
    (hf : ∀ a, Tallies c failing unseen (f a)) : Tallies c failing unseen (p >>= f) := by
  intro tr os r h
  rcases h.of_bind with ⟨e,rfl,hfirst⟩ | ⟨a,tr₁,tr₂,os₁,os₂,rfl,rfl,h₁,h₂⟩
  · obtain ⟨h₁,h₂,h₃,_⟩ := hp tr os _ hfirst
    exact ⟨fun _ => ⟨e,rfl⟩,h₂,h₃,by rintro ⟨_,h⟩; cases h⟩
  · have hfirst := hp tr₁ os₁ _ h₁
    have hrest := hf a tr₂ os₂ r h₂
    have hnone : ¬ ∃ x ∈ tr₁, failing x := by
      intro hx
      obtain ⟨e,he⟩ := hfirst.fails hx
      cases he
    have hfailing : (∃ x ∈ tr₁ ++ tr₂, failing x) ↔ ∃ x ∈ tr₂, failing x := by
      simp only [List.mem_append, or_and_right, exists_or, hnone, false_or]
    have hunseen : (∃ x ∈ tr₁ ++ tr₂, unseen x) ↔ ∃ x ∈ tr₂, unseen x := by
      have hnone' : ¬ ∃ x ∈ tr₁, unseen x := fun ⟨x,hx,hux⟩ => hnone ⟨x,hx,hsub x hux⟩
      simp only [List.mem_append, or_and_right, exists_or, hnone', false_or]
    have hzero := hfirst.succeeded ⟨a,rfl⟩
    rw [hfailing, hunseen]
    refine ⟨hrest.fails,?_,?_,?_⟩
    · rw [raised_append, hzero, Nat.zero_add]
      exact hrest.counted
    · rw [raised_append, hzero, Nat.zero_add]
      exact hrest.uncounted
    · rw [raised_append, hzero, Nat.zero_add]
      exact hrest.succeeded

end Judgements

section Sessions
variable {C Q : Type} {R : Q → Type} {κ ε α : Type} [DecidableEq κ]

/-- A completed call, with the counter before and after it. -/
structure Entry (C : Type) {Q : Type} (R : Q → Type) (ε α : Type) where
  call : C
  replies : List ((q : Q) × R q)
  result : Except ε α
  before : ℕ
  after : ℕ

inductive Session (run : C → Prog Q R (κ × ℕ) ε α) (c : κ) : ℕ → List (Entry C R ε α) → ℕ → Prop
  | nil (n : ℕ) : Session run c n [] n
  | snoc {m n : ℕ} {es : List (Entry C R ε α)} (h : Session run c m es n) {call : C}
      {tr : List ((q : Q) × R q)} {os : List (κ × ℕ)} {r : Except ε α} (hr : Returns (run call) tr os r) :
      Session run c m (es ++ [⟨call,tr,r,n,n + raised c os⟩]) (n + raised c os)

theorem Session.entries {run : C → Prog Q R (κ × ℕ) ε α} {c : κ} {m n : ℕ} {es : List (Entry C R ε α)}
    (h : Session run c m es n) : ∀ e ∈ es, ∃ os, Returns (run e.call) e.replies os e.result ∧
      e.after = e.before + raised c os := by
  induction h with
  | nil => exact fun e he => absurd he List.not_mem_nil
  | snoc h hr ih =>
    intro e he
    rcases List.mem_append.mp he with he | he
    · exact ih e he
    · rw [List.mem_singleton.mp he]
      exact ⟨_,hr,rfl⟩

/-- Each failure raises the counter by one, and no success raises it. -/
def CountsFailures (failing : Entry C R ε α → Prop) (es : List (Entry C R ε α)) : Prop :=
  ∀ e ∈ es, (failing e → e.after = e.before + 1) ∧ ((∃ a, e.result = .ok a) → e.after = e.before)

/-- Failures are counted throughout a session exactly if none of them is unseen. -/
theorem Session.countsFailures_iff {run : C → Prog Q R (κ × ℕ) ε α} {c : κ} {m n : ℕ}
    {es : List (Entry C R ε α)} {failing unseen : C → List ((q : Q) × R q) → Prop}
    (hsub : ∀ call tr, unseen call tr → failing call tr)
    (hjudged : ∀ call tr os r, Returns (run call) tr os r →
      Judged c (failing call tr) (unseen call tr) os r) (h : Session run c m es n) :
    CountsFailures (fun e => failing e.call e.replies) es ↔ ∀ e ∈ es, ¬ unseen e.call e.replies := by
  constructor
  · intro hcounts e he hunseen
    obtain ⟨os,hr,hafter⟩ := h.entries e he
    have hzero := (hjudged _ _ _ _ hr).uncounted (hsub _ _ hunseen) hunseen
    have hone := (hcounts e he).1 (hsub _ _ hunseen)
    omega
  · intro hseen e he
    obtain ⟨os,hr,hafter⟩ := h.entries e he
    have hj := hjudged _ _ _ _ hr
    constructor
    · intro hf
      rw [hafter, hj.counted hf (hseen e he)]
    · intro hok
      rw [hafter, hj.succeeded hok, Nat.add_zero]

end Sessions

end SlatedbCloudflare.Counting
