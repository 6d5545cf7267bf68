import Mathlib.Algebra.Order.Ring.Nat
import Mathlib.Data.List.Perm.Basic
import Mathlib.Data.Nat.Basic
import Mathlib.Logic.Function.Iterate

/-! # Random words and selection

A word that is combined with its own shifts can be recovered, so generators built from
such steps neither lose a word nor reach zero. A binary search finds where a predicate
that holds of an initial segment stops. Items that each draw one of `n` groups are
split over the groups.
-/
namespace SlatedbCloudflare.Sampling

section Words
variable {w : ℕ}

theorem eq_zero_of_shiftLeft {d : BitVec w} {k : ℕ} (hk : 0 < k) (h : d = d <<< k) : d = 0#w := by
  have hbits : ∀ i, d.getLsbD i = false := by
    intro i
    induction i using Nat.strong_induction_on with
    | h i ih =>
      rw [h, BitVec.getLsbD_shiftLeft]
      by_cases hi : i < k
      · simp [hi]
      · rw [ih (i - k) (by omega), Bool.and_false]
  apply BitVec.eq_of_getLsbD_eq
  intro i _
  rw [hbits, BitVec.getLsbD_zero]

theorem eq_zero_of_ushiftRight {d : BitVec w} {k : ℕ} (hk : 0 < k) (h : d = d >>> k) : d = 0#w := by
  have hbits : ∀ n i, w ≤ i + n → d.getLsbD i = false := by
    intro n
    induction n with
    | zero => exact fun i hi => BitVec.getLsbD_of_ge d i hi
    | succ n ih =>
      intro i hi
      rw [h, BitVec.getLsbD_ushiftRight]
      exact ih (k + i) (by omega)
  apply BitVec.eq_of_getLsbD_eq
  intro i _
  rw [hbits w i (by omega), BitVec.getLsbD_zero]

theorem xor_injective {f : BitVec w → BitVec w} (hf : ∀ x y, f (x ^^^ y) = f x ^^^ f y)
    (hfixed : ∀ d, d = f d → d = 0#w) : Function.Injective fun x => x ^^^ f x := by
  intro x y h
  have hx : x = (y ^^^ f y) ^^^ f x := by
    rw [← show x ^^^ f x = y ^^^ f y from h, BitVec.xor_assoc, BitVec.xor_self, BitVec.xor_zero]
  have hdiff : x ^^^ y = f (x ^^^ y) := by
    rw [hf]
    calc x ^^^ y = ((y ^^^ f y) ^^^ f x) ^^^ y := by rw [← hx]
      _ = (y ^^^ y) ^^^ (f x ^^^ f y) := by ac_rfl
      _ = f x ^^^ f y := by rw [BitVec.xor_self, BitVec.zero_xor]
  exact BitVec.xor_eq_zero_iff.mp (hfixed _ hdiff)

theorem shiftLeft_injective {k : ℕ} (hk : 0 < k) : Function.Injective fun x : BitVec w => x ^^^ x <<< k :=
  xor_injective (fun x y => BitVec.shiftLeft_xor_distrib x y k) fun _ => eq_zero_of_shiftLeft hk

theorem ushiftRight_injective {k : ℕ} (hk : 0 < k) : Function.Injective fun x : BitVec w => x ^^^ x >>> k :=
  xor_injective (fun x y => BitVec.ushiftRight_xor_distrib x y k) fun _ => eq_zero_of_ushiftRight hk

/-- The word as a fraction of all words, of `n` intervals. -/
def pick (x : BitVec w) (n : ℕ) : ℕ := x.toNat * n / 2 ^ w

theorem pick_lt (x : BitVec w) {n : ℕ} (hn : 0 < n) : pick x n < n := by
  apply Nat.div_lt_of_lt_mul
  exact Nat.mul_lt_mul_of_pos_right x.isLt hn

end Words

section Search
variable (below : ℕ → Bool)

/-- The loop of a binary search between `low` and `high`. -/
def bisect (low high : ℕ) : ℕ :=
  if low < high then
    let middle := (low + high) / 2
    if below middle then bisect (middle + 1) high else bisect low middle
  else low
termination_by high - low

variable {below} {low high : ℕ}

theorem bisect_mem (h : low ≤ high) : low ≤ bisect below low high ∧ bisect below low high ≤ high := by
  fun_induction bisect below low high with
  | case1 low high hlt middle _ ih =>
    have hbounds := ih (by omega)
    omega
  | case2 low high hlt middle _ ih =>
    have hbounds := ih (by omega)
    omega
  | case3 low high hge => omega

theorem bisect_spec (hdown : ∀ i j, i ≤ j → below j = true → below i = true) :
    (∀ i, low ≤ i → i < bisect below low high → below i = true) ∧
      ∀ i, bisect below low high ≤ i → i < high → below i = false := by
  fun_induction bisect below low high with
  | case1 low high hlt middle hbelow ih =>
    refine ⟨fun i _ hi => ?_,ih.2⟩
    by_cases hmiddle : i ≤ middle
    · exact hdown i middle hmiddle hbelow
    · exact ih.1 i (by omega) hi
  | case2 low high hlt middle hbelow ih =>
    refine ⟨ih.1,fun i hi _ => ?_⟩
    by_cases hmiddle : i < middle
    · exact ih.2 i hi hmiddle
    · rw [Bool.eq_false_iff]
      exact fun htrue => hbelow (hdown middle i (by omega) htrue)
  | case3 low high hge => exact ⟨fun i _ _ => by omega,fun i _ _ => by omega⟩

end Search

section Groups
variable {α : Type} (l : List α) (group : α → ℕ)

theorem grouped_perm (n : ℕ) :
    ((List.range n).flatMap fun i => l.filter fun x => group x = i).Perm (l.filter fun x => group x < n) := by
  induction n with
  | zero => simp
  | succ n ih =>
    have hbefore : (l.filter fun x => group x < n + 1).filter (fun x => group x < n) = l.filter fun x => group x < n := by
      rw [List.filter_filter]
      apply List.filter_congr
      intro x _
      rw [← Bool.decide_and]
      congr 1
      simp only [eq_iff_iff]
      omega
    have hlast : (l.filter fun x => group x < n + 1).filter (fun x => !(group x < n : Bool)) = l.filter fun x => group x = n := by
      rw [List.filter_filter]
      apply List.filter_congr
      intro x _
      rw [← decide_not, ← Bool.decide_and]
      congr 1
      simp only [eq_iff_iff]
      omega
    rw [List.range_succ, List.flatMap_append, List.flatMap_singleton, ← hlast]
    have hsplit := List.filter_append_perm (fun x => (group x < n : Bool)) (l.filter fun x => group x < n + 1)
    rw [hbefore] at hsplit
    exact (ih.append_right _).trans hsplit

end Groups

end SlatedbCloudflare.Sampling
