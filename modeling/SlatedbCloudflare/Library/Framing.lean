import Mathlib.Data.List.Basic

/-! # Uniquely decodable strings

Strings that are put together from decimal numbers, separators and parts of known
byte length can be taken apart in one way only, whatever follows them.
-/
namespace SlatedbCloudflare.Framing

/-- A list ends at the first occurrence of a separator that it does not contain. -/
theorem delimited_inj {α : Type} {d : α} {a b x y : List α} (ha : d ∉ a) (hb : d ∉ b)
    (h : a ++ d :: x = b ++ d :: y) : a = b ∧ x = y := by
  rcases List.append_eq_append_iff.mp h with ⟨c,rfl,hc⟩ | ⟨c,rfl,hc⟩
  · cases c with
    | nil => exact ⟨by simp,(List.cons.inj hc).2⟩
    | cons e c =>
      obtain ⟨rfl,_⟩ := List.cons.inj hc
      exact absurd (by simp) hb
  · cases c with
    | nil => exact ⟨by simp,(List.cons.inj hc).2.symm⟩
    | cons e c =>
      obtain ⟨rfl,_⟩ := List.cons.inj hc
      exact absurd (by simp) ha

theorem notMem_toDigits {d : Char} (hd : d.isDigit = false) (n : ℕ) : d ∉ Nat.toDigits 10 n := by
  intro h
  have hdigit : d.isDigit = true := Nat.isDigit_of_mem_toDigits (b := 10) (by decide) (by decide) h
  rw [hd] at hdigit
  cases hdigit

theorem toList_toString (n : ℕ) : (toString n).toList = Nat.toDigits 10 n := by simp

theorem number_inj {a b : ℕ} {d : Char} (hd : d.isDigit = false) {x y : List Char}
    (h : Nat.toDigits 10 a ++ d :: x = Nat.toDigits 10 b ++ d :: y) : a = b ∧ x = y := by
  obtain ⟨hdigits,hrest⟩ := delimited_inj (notMem_toDigits hd a) (notMem_toDigits hd b) h
  have hvalue := congrArg (fun digits => Nat.ofDigitChars 10 digits 0) hdigits
  exact ⟨by simpa only [Nat.ofDigitChars_ten_toDigits] using hvalue,hrest⟩

theorem toString_injective : Function.Injective (toString : ℕ → String) := by
  intro a b h
  have hlists : Nat.toDigits 10 a ++ ':' :: [] = Nat.toDigits 10 b ++ ':' :: [] := by
    rw [← toList_toString, ← toList_toString, h]
  exact (number_inj (by decide) hlists).1

theorem sized_inj {a b : String} {x y : List Char} (hsize : a.utf8ByteSize = b.utf8ByteSize)
    (h : a.toList ++ x = b.toList ++ y) : a = b ∧ x = y := by
  have hshort : ∀ {a b : String} (c : List Char), b.toList = a.toList ++ c →
      a.utf8ByteSize = b.utf8ByteSize → c = [] := by
    intro a b c hb hab
    have hb' : b = a ++ String.ofList c := by
      apply String.toList_inj.mp
      simpa using hb
    have hzero : (String.ofList c).utf8ByteSize = 0 := by
      rw [hb', String.utf8ByteSize_append] at hab
      omega
    have hempty := String.utf8ByteSize_eq_zero_iff.mp hzero
    simpa using congrArg String.toList hempty
  rcases List.append_eq_append_iff.mp h with ⟨c,hb,hc⟩ | ⟨c,ha,hc⟩
  · have hnil := hshort c hb hsize
    subst hnil
    exact ⟨String.toList_inj.mp (by simpa using hb.symm),by simpa using hc⟩
  · have hnil := hshort c ha hsize.symm
    subst hnil
    exact ⟨String.toList_inj.mp (by simpa using ha),by simpa using hc.symm⟩

end SlatedbCloudflare.Framing
