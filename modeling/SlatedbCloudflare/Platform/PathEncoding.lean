import SlatedbCloudflare.Platform.Path
import Mathlib.Algebra.Order.BigOperators.Group.List
import Mathlib.Algebra.Order.Ring.Nat

/-! # `Path::from`

A string is split at the slashes, empty segments are dropped, and the reserved
characters of the others are percent-encoded.
-/
namespace SlatedbCloudflare.ObjectStore
open Segments

/-- The characters that the crate encodes. -/
structure PathEncoding where
  reserved : Char → Bool
  percent : reserved '%' = true
  control : ∀ c : Char, c.toNat < 32 ∨ c.toNat = 127 → reserved c = true

namespace PathEncoding
variable (E : PathEncoding)

def standard : PathEncoding where
  reserved c := c.toNat < 32 || 127 ≤ c.toNat || "/\\{^}%`]\">[~<#|*?".toList.contains c
  percent := by decide
  control c h := by
    simp only [Bool.or_eq_true, decide_eq_true_eq]
    omega

def hexDigit (n : ℕ) : Char := if n < 10 then Char.ofNat (48 + n) else Char.ofNat (55 + n)

def percentEncode (c : Char) : List Char :=
  (String.utf8EncodeChar c).flatMap (fun b => ['%',hexDigit (b.toNat / 16),hexDigit (b.toNat % 16)])

def encodeChar (c : Char) : List Char := if E.reserved c then percentEncode c else [c]

def encodeSegment (s : List Char) : List Char :=
  if s = ['.'] then ['%','2','E']
  else if s = ['.','.'] then ['%','2','E','%','2','E']
  else s.flatMap E.encodeChar

/-- No segment has a reserved character. -/
def Plain (p : Path) : Prop := ∀ s ∈ p.segments, ∀ c ∈ s, E.reserved c = false

variable {E}

theorem hexDigit_char : ∀ n < 16, hexDigit n ≠ '/' ∧ 32 ≤ (hexDigit n).toNat ∧ (hexDigit n).toNat ≠ 127 := by
  decide

theorem percentEncode_ne_nil (c : Char) : percentEncode c ≠ [] ∧ '%' ∈ percentEncode c ∧
    1 < (percentEncode c).length := by
  have hpos : String.utf8EncodeChar c ≠ [] := by
    intro h
    have hlen := String.length_utf8EncodeChar c
    rw [h] at hlen
    have hsize := c.utf8Size_pos
    simp at hlen
    omega
  obtain ⟨b,bs,hbs⟩ := List.exists_cons_of_ne_nil hpos
  rw [percentEncode, hbs, List.flatMap_cons]
  simp

theorem mem_percentEncode {c x : Char} (h : x ∈ percentEncode c) :
    x ≠ '/' ∧ 32 ≤ x.toNat ∧ x.toNat ≠ 127 := by
  obtain ⟨b,_,hx⟩ := List.mem_flatMap.mp h
  have hlt := b.toNat_lt
  simp only [List.mem_cons, List.not_mem_nil, or_false] at hx
  rcases hx with rfl | rfl | rfl
  · decide
  · exact hexDigit_char _ (by omega)
  · exact hexDigit_char _ (by omega)

theorem mem_encodeChar {c x : Char} (hc : c ≠ '/') (h : x ∈ E.encodeChar c) :
    x ≠ '/' ∧ 32 ≤ x.toNat ∧ x.toNat ≠ 127 := by
  by_cases hr : E.reserved c = true
  · rw [encodeChar, if_pos hr] at h
    exact mem_percentEncode h
  · rw [encodeChar, if_neg hr, List.mem_singleton] at h
    subst h
    refine ⟨hc,?_,fun h127 => hr (E.control x (.inr h127))⟩
    by_contra hlt
    exact hr (E.control x (.inl (by omega)))

theorem length_encodeChar (c : Char) : 1 ≤ (E.encodeChar c).length := by
  by_cases hr : E.reserved c = true
  · rw [encodeChar, if_pos hr]
    have hlen := (percentEncode_ne_nil c).2.2
    omega
  · rw [encodeChar, if_neg hr]
    exact Nat.le_refl 1

theorem flatMap_plain {s : List Char} (h : ∀ c ∈ s, E.reserved c = false) :
    s.flatMap E.encodeChar = s := by
  induction s with
  | nil => rfl
  | cons c s ih =>
    obtain ⟨hc,hs⟩ := List.forall_mem_cons.mp h
    have hone : E.encodeChar c = [c] := by
      rw [encodeChar, hc]
      rfl
    rw [List.flatMap_cons, hone, ih hs]
    rfl

theorem flatMap_reserved {s : List Char} {c : Char} (hc : c ∈ s) (hr : E.reserved c = true) :
    '%' ∈ s.flatMap E.encodeChar ∧ s.length < (s.flatMap E.encodeChar).length := by
  have hchar : E.encodeChar c = percentEncode c := if_pos hr
  obtain ⟨_,hpercent,hlen⟩ := percentEncode_ne_nil c
  have hle : ∀ l : List Char, l.length ≤ (l.flatMap E.encodeChar).length := by
    intro l
    induction l with
    | nil => exact Nat.le_refl 0
    | cons x l ih =>
      have hx := length_encodeChar (E := E) x
      rw [List.flatMap_cons, List.length_append, List.length_cons]
      omega
  obtain ⟨a,b,rfl⟩ := List.append_of_mem hc
  refine ⟨List.mem_flatMap.mpr ⟨c,hc,by rw [hchar]; exact hpercent⟩,?_⟩
  have ha := hle a
  have hb := hle b
  rw [List.flatMap_append, List.flatMap_cons, hchar]
  simp only [List.length_append, List.length_cons]
  omega

theorem encodeSegment_valid {s : List Char} (hs : s ≠ []) (hslash : '/' ∉ s) :
    validSegment (E.encodeSegment s) = true := by
  by_cases hdot : s = ['.']
  · rw [encodeSegment, if_pos hdot]
    decide
  by_cases hdots : s = ['.','.']
  · rw [encodeSegment, if_neg hdot, if_pos hdots]
    decide
  rw [encodeSegment, if_neg hdot, if_neg hdots]
  have hchars : ∀ x ∈ s.flatMap E.encodeChar, x ≠ '/' ∧ 32 ≤ x.toNat ∧ x.toNat ≠ 127 := by
    intro x hx
    obtain ⟨c,hc,hxc⟩ := List.mem_flatMap.mp hx
    exact mem_encodeChar (fun heq => hslash (heq ▸ hc)) hxc
  -- what is encoded has a percent sign, and what is not is the segment itself
  have hshape : '%' ∈ s.flatMap E.encodeChar ∨ s.flatMap E.encodeChar = s := by
    by_cases hr : ∃ c ∈ s, E.reserved c = true
    · obtain ⟨c,hc,hcr⟩ := hr
      exact .inl (flatMap_reserved hc hcr).1
    · refine .inr (flatMap_plain fun c hc => ?_)
      by_contra hcr
      exact hr ⟨c,hc,by simpa using hcr⟩
  simp only [validSegment, Bool.and_eq_true, decide_eq_true_eq, List.all_eq_true, ne_eq]
  rcases hshape with hpercent | heq
  · refine ⟨⟨⟨?_,?_⟩,?_⟩,fun x hx => ?_⟩
    · intro h
      rw [h] at hpercent
      cases hpercent
    · intro h
      rw [h] at hpercent
      exact absurd hpercent (by decide)
    · intro h
      rw [h] at hpercent
      exact absurd hpercent (by decide)
    · obtain ⟨h₁,h₂,h₃⟩ := hchars x hx
      exact ⟨⟨h₁,h₂⟩,h₃⟩
  · rw [heq] at hchars ⊢
    refine ⟨⟨⟨hs,hdot⟩,hdots⟩,fun x hx => ?_⟩
    obtain ⟨h₁,h₂,h₃⟩ := hchars x hx
    exact ⟨⟨h₁,h₂⟩,h₃⟩

end PathEncoding

namespace Path
open PathEncoding
variable (E : PathEncoding)

def fromSegments (s : String) : List (List Char) :=
  ((s.toList.splitOn '/').filter (· ≠ [])).map E.encodeSegment

theorem fromSegments_valid (s : String) : ∀ t ∈ fromSegments E s, validSegment t = true := by
  intro t ht
  obtain ⟨segment,hsegment,rfl⟩ := List.mem_map.mp ht
  obtain ⟨hmem,hne⟩ := List.mem_filter.mp hsegment
  exact encodeSegment_valid (by simpa using hne) (notMem_of_mem_splitOn hmem)

/-- `Path::from` -/
def ofString (s : String) : Path := join (fromSegments E s) (fromSegments_valid E s)

variable {E}

theorem segments_ofString (p : Path) : (ofString E p.raw).segments = p.segments.map E.encodeSegment := by
  rw [ofString, segments_join, fromSegments]
  by_cases hraw : p.raw = ""
  · rw [segments_root hraw, hraw]
    rfl
  · have hall : (p.raw.toList.splitOn '/').filter (· ≠ []) = p.segments := by
      rw [← segments_of_ne hraw, List.filter_eq_self]
      intro s hs
      simpa using validSegment_ne_nil (segments_valid p s hs)
    rw [hall]

theorem encodeSegment_of_valid {s : List Char} (h : validSegment s = true) :
    E.encodeSegment s = s.flatMap E.encodeChar := by
  have hdot : s ≠ ['.'] := by
    rintro rfl
    exact absurd h (by decide)
  have hdots : s ≠ ['.','.'] := by
    rintro rfl
    exact absurd h (by decide)
  rw [encodeSegment, if_neg hdot, if_neg hdots]

theorem ofString_plain {p : Path} (h : E.Plain p) : ofString E p.raw = p := by
  have hsame : ∀ s ∈ p.segments, E.encodeSegment s = id s := by
    intro s hs
    rw [encodeSegment_of_valid (segments_valid p s hs), flatMap_plain (h s hs)]
    rfl
  apply segments_inj
  rw [segments_ofString, List.map_congr_left hsame, List.map_id]

def size (p : Path) : ℕ := (p.segments.map List.length).sum

/-- Any other path comes back longer, and with a reserved character again. -/
theorem ofString_reserved {p : Path} (h : ¬ E.Plain p) :
    ¬ E.Plain (ofString E p.raw) ∧ p.size < (ofString E p.raw).size := by
  simp only [Plain, not_forall, Bool.not_eq_false] at h
  obtain ⟨s,hs,c,hc,hr⟩ := h
  have hencoded : ∀ s ∈ p.segments, E.encodeSegment s = s.flatMap E.encodeChar :=
    fun s hs => encodeSegment_of_valid (segments_valid p s hs)
  obtain ⟨hpercent,hlonger⟩ := flatMap_reserved hc hr
  rw [← hencoded s hs] at hpercent hlonger
  constructor
  · intro hplain
    have hmem : E.encodeSegment s ∈ (ofString E p.raw).segments := by
      rw [segments_ofString]
      exact List.mem_map_of_mem hs
    have hfalse := hplain _ hmem '%' hpercent
    rw [E.percent] at hfalse
    cases hfalse
  · rw [size, size, segments_ofString, List.map_map]
    refine List.sum_lt_sum _ _ (fun t ht => ?_) ⟨s,hs,hlonger⟩
    by_cases hplain : ∀ c ∈ t, E.reserved c = false
    · rw [Function.comp_apply, hencoded t ht, flatMap_plain hplain]
    · simp only [not_forall, Bool.not_eq_false] at hplain
      obtain ⟨d,hd,hdr⟩ := hplain
      rw [Function.comp_apply, hencoded t ht]
      exact (flatMap_reserved hd hdr).2.le

end Path

end SlatedbCloudflare.ObjectStore
