import SlatedbCloudflare.Library.Programs

/-! # Programs cut off at a bound

A recursion that need not end is a family of programs, one for each bound on its
depth; the error `none` stands for the place where it was cut. With a larger bound
the program goes on from there, and otherwise does the same.
-/
namespace SlatedbCloudflare.Fuel
open Programs

variable {Req : Type} {Resp : Req → Type} {ε α β : Type}

abbrev Cut (Req : Type) (Resp : Req → Type) (ε α : Type) := Prog Req Resp Empty (Option ε) α

/-- The second program goes on where the first one was cut. -/
inductive Approximates : Cut Req Resp ε α → Cut Req Resp ε α → Prop
  | cut (q : Cut Req Resp ε α) : Approximates (.err none) q
  | ok (a : α) : Approximates (.ok a) (.ok a)
  | err (e : ε) : Approximates (.err (some e)) (.err (some e))
  | call {r : Req} {k k' : Resp r → Cut Req Resp ε α} (h : ∀ x, Approximates (k x) (k' x)) :
      Approximates (.call r k) (.call r k')

namespace Approximates

theorem refl (p : Cut Req Resp ε α) : Approximates p p := by
  induction p with
  | ok a => exact .ok a
  | err e =>
    cases e with
    | none => exact .cut _
    | some e => exact .err e
  | emit o => exact o.elim
  | call r k ih => exact .call ih

theorem trans {p q r : Cut Req Resp ε α} (h : Approximates p q) (h' : Approximates q r) : Approximates p r := by
  induction h generalizing r with
  | cut q => exact .cut r
  | ok a => exact h'
  | err e => exact h'
  | call _ ih =>
    cases h' with
    | call h' => exact .call fun x => ih x (h' x)

theorem bind {p q : Cut Req Resp ε α} {f g : α → Cut Req Resp ε β} (h : Approximates p q)
    (hf : ∀ a, Approximates (f a) (g a)) : Approximates (p >>= f) (q >>= g) := by
  induction h with
  | cut q => exact .cut _
  | ok a => exact hf a
  | err e => exact .err e
  | call _ ih => exact .call ih

end Approximates

section Timed
variable (answer : ℕ → (r : Req) → Resp r)

/-- The calls of a program from the `n`-th on, each answered at its time, and the result. -/
def timed : ℕ → Cut Req Resp ε α → List ((r : Req) × Resp r) × Except (Option ε) α
  | _, .ok a => ([],.ok a)
  | _, .err e => ([],.error e)
  | n, .emit _ p => timed n p
  | n, .call r k =>
    let rest := timed (n + 1) (k (answer n r))
    (⟨r,answer n r⟩ :: rest.1,rest.2)

variable {answer} {n : ℕ}

theorem timed_returns (p : Cut Req Resp ε α) : Returns p (timed answer n p).1 [] (timed answer n p).2 := by
  induction p generalizing n with
  | ok a => cases n <;> exact .refl _
  | err e => cases n <;> exact .refl _
  | emit o => exact o.elim
  | call r k ih => exact .call (ih (answer n r))

theorem timed_bind_ok {p : Cut Req Resp ε α} {f : α → Cut Req Resp ε β} {a : α} (h : (timed answer n p).2 = .ok a) :
    ∃ m, (timed answer n (p >>= f)).2 = (timed answer m (f a)).2 := by
  induction p generalizing n with
  | ok b =>
    cases h
    exact ⟨n,rfl⟩
  | err e => cases h
  | emit o => exact o.elim
  | call r k ih => exact ih (answer n r) h

/-- A better approximation makes the same calls, and more only where the first was cut. -/
theorem Approximates.timed {p q : Cut Req Resp ε α} (h : Approximates p q) (answer : ℕ → (r : Req) → Resp r)
    (n : ℕ) : (timed answer n p).1 <+: (timed answer n q).1 ∧
      ((timed answer n p).2 ≠ .error none → timed answer n p = timed answer n q) := by
  induction h generalizing n with
  | cut q => exact ⟨List.nil_prefix,fun hne => absurd rfl hne⟩
  | ok a => exact ⟨List.prefix_rfl,fun _ => rfl⟩
  | err e => exact ⟨List.prefix_rfl,fun _ => rfl⟩
  | @call r k k' _ ih =>
    obtain ⟨hcalls,hresult⟩ := ih (answer n r) (n + 1)
    refine ⟨List.cons_prefix_cons.mpr ⟨rfl,hcalls⟩,?_⟩
    intro hne
    have heq := hresult hne
    rw [Fuel.timed, Fuel.timed, heq]

end Timed

section Families
variable (answer : ℕ → (r : Req) → Resp r) (family : ℕ → Cut Req Resp ε α)

/-- The recursion makes this call, whatever the bound that lets it get there. -/
def Made (x : (r : Req) × Resp r) : Prop := ∃ bound, x ∈ (timed answer 0 (family bound)).1

def Finishes (a : α) : Prop := ∃ bound, (timed answer 0 (family bound)).2 = .ok a

variable {answer family}

theorem approximates_of_le (hf : ∀ bound, Approximates (family bound) (family (bound + 1))) {m n : ℕ} (h : m ≤ n) :
    Approximates (family m) (family n) := by
  induction h with
  | refl => exact .refl _
  | step _ ih => exact ih.trans (hf _)

theorem made_of_finished (hf : ∀ bound, Approximates (family bound) (family (bound + 1))) {bound : ℕ} {a : α}
    (ha : (timed answer 0 (family bound)).2 = .ok a) {x : (r : Req) × Resp r} (hx : Made answer family x) :
    x ∈ (timed answer 0 (family bound)).1 := by
  obtain ⟨bound',hx⟩ := hx
  rcases Nat.le_total bound' bound with hle | hle
  · have hcalls := (approximates_of_le hf hle).timed answer 0
    exact hcalls.1.subset hx
  · have hcalls := (approximates_of_le hf hle).timed answer 0
    have hne : (timed answer 0 (family bound)).2 ≠ .error none := by
      rw [ha]
      simp
    rwa [hcalls.2 hne]

end Families

end SlatedbCloudflare.Fuel
