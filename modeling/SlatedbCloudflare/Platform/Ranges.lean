import Mathlib.Algebra.Order.Ring.Nat
import SlatedbCloudflare.Platform.Http

/-! # Ranged reads of R2

A range is asked for through the binding or in a `Range` header. Either way it
selects bytes that are clipped to the size of the object.
-/
namespace SlatedbCloudflare.R2
open ObjectStore Http

def slice (content : Bytes) (bounds : ℕ × ℕ) : Bytes := content.extract bounds.1 bounds.2

/-- A start at or past the size is refused. -/
def clipped (start stop size : ℕ) : Option (ℕ × ℕ) :=
  if size ≤ start then none else some (start,min stop size)

def Range.select : Range → ℕ → Option (ℕ × ℕ)
  | .offsetWithLength offset length, size => clipped offset (offset + length) size
  | .offsetToEnd offset, size => clipped offset size size
  | .suffix length, size => clipped (size - length) size size

/-- A `Range` header with one range: `bytes=a-b`, `bytes=a-` or `bytes=-n`. -/
inductive HeaderRange
  | firstLast (first last : ℕ)
  | offset (first : ℕ)
  | suffix (length : ℕ)
  deriving DecidableEq

namespace HeaderRange

def text : HeaderRange → String
  | .firstLast first last => "bytes=" ++ toString first ++ "-" ++ toString last
  | .offset first => "bytes=" ++ toString first ++ "-"
  | .suffix length => "bytes=-" ++ toString length

/-- The last byte is included. -/
def select : HeaderRange → ℕ → Option (ℕ × ℕ)
  | .firstLast first last, size => clipped first (last + 1) size
  | .offset first, size => clipped first size size
  | .suffix length, size => clipped (size - length) size size

def digits (s : List Char) : Option ℕ := if s = [] then none else Formats.decimal (String.ofList s)

def ofBounds : List (List Char) → Option HeaderRange
  | [first,last] =>
    match digits first, digits last with
    | some a, some b => some (.firstLast a b)
    | some a, none => some (.offset a)
    | none, some n => some (.suffix n)
    | none, none => none
  | _ => none

def parse (s : String) : Option HeaderRange :=
  if s.toList.take 6 = "bytes=".toList then ofBounds ((s.toList.drop 6).splitOn '-') else none

theorem digits_toDigits (n : ℕ) : digits (Nat.toDigits 10 n) = some n := by
  have hofList : String.ofList (Nat.toDigits 10 n) = toString n := by
    rw [← String.toList_inj]
    simp
  have hne : Nat.toDigits 10 n ≠ [] := Nat.toDigits_ne_nil
  rw [digits, if_neg hne, hofList, Formats.decimal_toString]

theorem hyphen_notMem (n : ℕ) : '-' ∉ Nat.toDigits 10 n := by
  intro h
  exact absurd (Nat.isDigit_of_mem_toDigits (b := 10) (by decide) (by decide) h) (by decide)

theorem splitOn_bounds {first last : List Char} (hfirst : '-' ∉ first) (hlast : '-' ∉ last) :
    (first ++ '-' :: last).splitOn '-' = [first,last] := by
  rw [List.splitOn_append_cons_self, List.splitOn_eq_singleton hfirst, List.splitOn_eq_singleton hlast]
  rfl

theorem parse_text (r : HeaderRange) : parse r.text = some r := by
  have hbounds : ∀ {s : String} {first last : List Char}, s.toList = "bytes=".toList ++ (first ++ '-' :: last) →
      '-' ∉ first → '-' ∉ last → parse s = ofBounds [first,last] := by
    intro s first last hs hfirst hlast
    have hlength : ("bytes=".toList).length = 6 := rfl
    rw [parse, hs, ← hlength, List.take_left, List.drop_left, if_pos rfl, splitOn_bounds hfirst hlast]
  have hnone : digits [] = none := rfl
  cases r with
  | firstLast first last =>
    have htext : (text (.firstLast first last)).toList =
        "bytes=".toList ++ (Nat.toDigits 10 first ++ '-' :: Nat.toDigits 10 last) := by
      simp [text]
    rw [hbounds htext (hyphen_notMem _) (hyphen_notMem _)]
    simp only [ofBounds, digits_toDigits]
  | offset first =>
    have htext : (text (.offset first)).toList = "bytes=".toList ++ (Nat.toDigits 10 first ++ '-' :: []) := by
      simp [text]
    rw [hbounds htext (hyphen_notMem _) (by simp)]
    simp only [ofBounds, digits_toDigits, hnone]
  | suffix length =>
    have htext : (text (.suffix length)).toList = "bytes=".toList ++ ([] ++ '-' :: Nat.toDigits 10 length) := by
      simp [text]
    rw [hbounds htext (by simp) (hyphen_notMem _)]
    simp only [ofBounds, digits_toDigits, hnone]

theorem isPrintable_text (r : HeaderRange) : isPrintable r.text = true := by
  have hunit : ∀ c ∈ "bytes=-".toList, 33 ≤ c.toNat ∧ c.toNat ≤ 126 := isPrintable_iff.mp (by decide)
  have hbytes : ∀ c ∈ "bytes=".toList, 33 ≤ c.toNat ∧ c.toNat ≤ 126 := isPrintable_iff.mp (by decide)
  have hhyphen : ∀ c ∈ "-".toList, 33 ≤ c.toNat ∧ c.toNat ≤ 126 := isPrintable_iff.mp (by decide)
  rw [isPrintable_iff]
  intro c hc
  cases r with
  | firstLast first last =>
    simp only [text, String.toList_append, List.mem_append] at hc
    rcases hc with ((hc | hc) | hc) | hc
    · exact hbytes c hc
    · exact printable_digits (n := first) (by simpa using hc)
    · exact hhyphen c hc
    · exact printable_digits (n := last) (by simpa using hc)
  | offset first =>
    simp only [text, String.toList_append, List.mem_append] at hc
    rcases hc with (hc | hc) | hc
    · exact hbytes c hc
    · exact printable_digits (n := first) (by simpa using hc)
    · exact hhyphen c hc
  | suffix length =>
    simp only [text, String.toList_append, List.mem_append] at hc
    rcases hc with hc | hc
    · exact hunit c hc
    · exact printable_digits (n := length) (by simpa using hc)

end HeaderRange

inductive ReadRange.Selects : ReadRange → (ℕ → Option (ℕ × ℕ)) → Prop
  | range (r : Range) : Selects (.range r) r.select
  | header {h : Headers} (r : HeaderRange) (hr : h.lookup "range" = some r.text) : Selects (.headers h) r.select

def OnlyIf.Free : OnlyIf → Prop
  | .none => True
  | .conditional _ => False
  | .headers h => h.conditions = []

/-- R2 serves the selected bytes, and fails if there are none to select. -/
structure Rules.ReadsRanges (R : Rules) : Prop where
  bodies : ∀ {c : OnlyIf} {range : ReadRange} {select : ℕ → Option (ℕ × ℕ)} {o : Object} {b : Bytes},
    range.Selects select → R.read c range o = some (some b) →
      ∃ bounds, select o.size = some bounds ∧ b = slice o.content bounds
  free : ∀ {c : OnlyIf} {range : ReadRange} {select : ℕ → Option (ℕ × ℕ)} (o : Object),
    range.Selects select → c.Free →
      R.read c range o = (select o.size).map (fun bounds => some (slice o.content bounds))

namespace Rules

def rangedRead (c : OnlyIf) (range : ReadRange) (o : Object) : Option (Option Bytes) :=
  let served (bytes : Bytes) := if standardEvaluate c (some o) = some true then some bytes else none
  match range with
  | .whole => some (served o.content)
  | .range r => (r.select o.size).map (fun bounds => served (slice o.content bounds))
  | .headers h => match (h.lookup "range").bind HeaderRange.parse with
    | some r => (r.select o.size).map (fun bounds => served (slice o.content bounds))
    | none => some (served o.content)

def ranged : Rules := { standard with read := rangedRead, read_whole := fun _ => rfl }

theorem ranged_readsRanges : ranged.ReadsRanges := by
  have hread : ∀ {c : OnlyIf} {range : ReadRange} {select : ℕ → Option (ℕ × ℕ)} (o : Object),
      range.Selects select → ranged.read c range o = (select o.size).map (fun bounds =>
        if standardEvaluate c (some o) = some true then some (slice o.content bounds) else none) := by
    intro c range select o h
    cases h with
    | range r => rfl
    | header r hr => simp only [ranged, rangedRead, hr, Option.bind_some, HeaderRange.parse_text]
  constructor
  · intro c range select o b hselects h
    rw [hread o hselects] at h
    obtain ⟨bounds,hbounds,hb⟩ := Option.map_eq_some_iff.mp h
    refine ⟨bounds,hbounds,?_⟩
    split at hb
    · exact (Option.some.inj hb).symm
    · cases hb
  · intro c range select o hselects hfree
    have hholds : standardEvaluate c (some o) = some true := by
      cases c with
      | none => rfl
      | conditional c => exact hfree.elim
      | headers h => exact standard.evaluate_noHeader h (some o) hfree
    rw [hread o hselects]
    simp only [hholds, ↓reduceIte]

end Rules

end SlatedbCloudflare.R2
