import SlatedbCloudflare.Platform.ObjectStore
import Mathlib.Tactic.SplitIfs

/-! # Text and its bytes -/
namespace SlatedbCloudflare.Utf8
open ObjectStore

/-- `as_bytes` -/
def asBytes (s : String) : Bytes := s.toUTF8.toList

/-- What a sequence that begins with this byte still needs: the bits so far and the
ranges of the bytes to come. -/
def lead (b : UInt8) : Option (ℕ × List (UInt8 × UInt8)) :=
  if 0xC2 ≤ b ∧ b ≤ 0xDF then some (b.toNat - 0xC0,[(0x80,0xBF)])
  else if b = 0xE0 then some (0,[(0xA0,0xBF),(0x80,0xBF)])
  else if b = 0xED then some (0xD,[(0x80,0x9F),(0x80,0xBF)])
  else if 0xE1 ≤ b ∧ b ≤ 0xEF then some (b.toNat - 0xE0,[(0x80,0xBF),(0x80,0xBF)])
  else if b = 0xF0 then some (0,[(0x90,0xBF),(0x80,0xBF),(0x80,0xBF)])
  else if b = 0xF4 then some (4,[(0x80,0x8F),(0x80,0xBF),(0x80,0xBF)])
  else if 0xF1 ≤ b ∧ b ≤ 0xF3 then some (b.toNat - 0xF0,[(0x80,0xBF),(0x80,0xBF),(0x80,0xBF)])
  else none

def replacement : Char := Char.ofNat 0xFFFD

/-- One character, or the state in which the next byte is read. -/
def begin' (b : UInt8) : List Char × Option (ℕ × List (UInt8 × UInt8)) :=
  if b < 0x80 then ([Char.ofNat b.toNat],none)
  else match lead b with
    | some pending => ([],some pending)
    | none => ([replacement],none)

def lossyFrom : Option (ℕ × List (UInt8 × UInt8)) → Bytes → List Char
  | none, [] => []
  | some _, [] => [replacement]
  | some (code,(low,high) :: ranges), b :: bytes =>
    if low ≤ b ∧ b ≤ high then
      match ranges with
      | [] => Char.ofNat (code * 64 + (b.toNat - 0x80)) :: lossyFrom none bytes
      | _ => lossyFrom (some (code * 64 + (b.toNat - 0x80),ranges)) bytes
    else replacement :: (begin' b).1 ++ lossyFrom (begin' b).2 bytes
  | _, b :: bytes => (begin' b).1 ++ lossyFrom (begin' b).2 bytes

/-- `String::from_utf8_lossy`: each maximal broken sequence becomes one replacement character. -/
def fromUtf8Lossy (bytes : Bytes) : String := String.ofList (lossyFrom none bytes)

example : lossyFrom none [0x68,0xC3,0xA9,0xE2,0x82,0x21,0xFF] =
    ['h','é',replacement,'!',replacement] := by decide

section Decoding
variable {b low high : UInt8} {bytes : Bytes} {code m n : ℕ} {ranges : List (UInt8 × UInt8)} {range : UInt8 × UInt8}

theorem toNat_byte (h : n < 256) : (UInt8.ofNat n).toNat = n := UInt8.toNat_ofNat_of_lt' h

theorem toNat_le {a b : UInt8} : a ≤ b ↔ a.toNat ≤ b.toNat := UInt8.le_iff_toNat_le

theorem lossyFrom_ascii (h : b.toNat < 0x80) :
    lossyFrom none (b :: bytes) = Char.ofNat b.toNat :: lossyFrom none bytes := by
  have hlt : b < 0x80 := UInt8.lt_iff_toNat_lt.mpr h
  rw [lossyFrom, begin', if_pos hlt]
  · rfl
  · intro _ _ _ _ h
    cases h

theorem lossyFrom_lead (h : 0x80 ≤ b.toNat) (hlead : lead b = some (code,ranges)) :
    lossyFrom none (b :: bytes) = lossyFrom (some (code,ranges)) bytes := by
  have hlt : ¬ b < 0x80 := fun hlt => absurd (UInt8.lt_iff_toNat_lt.mp hlt) (Nat.not_lt.mpr h)
  rw [lossyFrom, begin', if_neg hlt, hlead]
  · rfl
  · intro _ _ _ _ h
    cases h

theorem lossyFrom_more (h : m < 64) (hlow : low.toNat ≤ m + 0x80) (hhigh : m + 0x80 ≤ high.toNat) :
    lossyFrom (some (code,(low,high) :: range :: ranges)) (UInt8.ofNat (m + 0x80) :: bytes) =
      lossyFrom (some (code * 64 + m,range :: ranges)) bytes := by
  have hbyte : (UInt8.ofNat (m + 0x80)).toNat = m + 0x80 := toNat_byte (by omega)
  have hrange : low ≤ UInt8.ofNat (m + 0x80) ∧ UInt8.ofNat (m + 0x80) ≤ high := by
    rw [toNat_le, toNat_le, hbyte]
    exact ⟨hlow,hhigh⟩
  rw [lossyFrom, if_pos hrange, hbyte, Nat.add_sub_cancel]
  intro h
  cases h

theorem lossyFrom_last (h : m < 64) :
    lossyFrom (some (code,[(0x80,0xBF)])) (UInt8.ofNat (m + 0x80) :: bytes) =
      Char.ofNat (code * 64 + m) :: lossyFrom none bytes := by
  have hbyte : (UInt8.ofNat (m + 0x80)).toNat = m + 0x80 := toNat_byte (by omega)
  have hrange : 0x80 ≤ UInt8.ofNat (m + 0x80) ∧ UInt8.ofNat (m + 0x80) ≤ 0xBF := by
    rw [toNat_le, toNat_le, hbyte]
    exact ⟨Nat.le_add_left _ _,Nat.add_le_add_right (Nat.le_of_lt_succ h) _⟩
  rw [lossyFrom, if_pos hrange, hbyte, Nat.add_sub_cancel]

theorem lead_two (hlow : 0xC2 ≤ b.toNat) (hhigh : b.toNat ≤ 0xDF) :
    lead b = some (b.toNat - 0xC0,[(0x80,0xBF)]) := by
  have hrange : 0xC2 ≤ b ∧ b ≤ 0xDF := ⟨toNat_le.mpr hlow,toNat_le.mpr hhigh⟩
  rw [lead, if_pos hrange]

theorem lead_three (hlow : 0xE0 ≤ b.toNat) (hhigh : b.toNat ≤ 0xEF) : lead b = some (b.toNat - 0xE0,
    [if b.toNat = 0xE0 then (0xA0,0xBF) else if b.toNat = 0xED then (0x80,0x9F) else (0x80,0xBF),(0x80,0xBF)]) := by
  have htwo : ¬ (0xC2 ≤ b ∧ b ≤ 0xDF) := fun h => absurd (toNat_le.mp h.2) (by simp; omega)
  have hthree : 0xE1 ≤ b ∧ b ≤ 0xEF ↔ b.toNat ≠ 0xE0 := by
    rw [toNat_le, toNat_le]
    simp
    omega
  have hfirst : b = 0xE0 ↔ b.toNat = 0xE0 := by
    rw [← UInt8.toNat_inj]
    rfl
  have hlast : b = 0xED ↔ b.toNat = 0xED := by
    rw [← UInt8.toNat_inj]
    rfl
  rw [lead, if_neg htwo]
  simp only [hfirst, hlast, hthree]
  split_ifs <;> simp_all

theorem lead_four (hlow : 0xF0 ≤ b.toNat) (hhigh : b.toNat ≤ 0xF4) : lead b = some (b.toNat - 0xF0,
    [if b.toNat = 0xF0 then (0x90,0xBF) else if b.toNat = 0xF4 then (0x80,0x8F) else (0x80,0xBF),
      (0x80,0xBF),(0x80,0xBF)]) := by
  have htwo : ¬ (0xC2 ≤ b ∧ b ≤ 0xDF) := fun h => absurd (toNat_le.mp h.2) (by simp; omega)
  have hthree : ¬ (0xE1 ≤ b ∧ b ≤ 0xEF) := fun h => absurd (toNat_le.mp h.2) (by simp; omega)
  have hne : ∀ c : UInt8, c.toNat < 0xF0 → b ≠ c := by
    rintro c hc rfl
    omega
  have hfour : 0xF1 ≤ b ∧ b ≤ 0xF3 ↔ b.toNat ≠ 0xF0 ∧ b.toNat ≠ 0xF4 := by
    rw [toNat_le, toNat_le]
    simp
    omega
  have hfirst : b = 0xF0 ↔ b.toNat = 0xF0 := by
    rw [← UInt8.toNat_inj]
    rfl
  have hlast : b = 0xF4 ↔ b.toNat = 0xF4 := by
    rw [← UInt8.toNat_inj]
    rfl
  rw [lead, if_neg htwo, if_neg (hne 0xE0 (by decide)), if_neg (hne 0xED (by decide)), if_neg hthree]
  simp only [hfirst, hlast, hfour]
  split_ifs <;> simp_all

theorem lossyFrom_two (bytes : Bytes) (h : 0x80 ≤ n) (h' : n ≤ 0x7FF) : lossyFrom none
    (UInt8.ofNat (n / 64 % 0x20 + 0xC0) :: UInt8.ofNat (n % 0x40 + 0x80) :: bytes) =
      Char.ofNat n :: lossyFrom none bytes := by
  have hfirst : (UInt8.ofNat (n / 64 % 0x20 + 0xC0)).toNat = n / 64 + 0xC0 := by
    rw [toNat_byte (by omega)]
    omega
  have hcode : (n / 64 + 0xC0 - 0xC0) * 64 + n % 0x40 = n := by omega
  rw [lossyFrom_lead (by omega) (lead_two (by omega) (by omega)), hfirst, lossyFrom_last (Nat.mod_lt _ (by decide)),
    hcode]

theorem lossyFrom_three (bytes : Bytes) (h : 0x800 ≤ n) (h' : n ≤ 0xFFFF) (hvalid : n < 0xD800 ∨ 0xDFFF < n) : lossyFrom none
    (UInt8.ofNat (n / 4096 % 0x10 + 0xE0) :: UInt8.ofNat (n / 64 % 0x40 + 0x80) :: UInt8.ofNat (n % 0x40 + 0x80) ::
      bytes) = Char.ofNat n :: lossyFrom none bytes := by
  have hfirst : (UInt8.ofNat (n / 4096 % 0x10 + 0xE0)).toNat = n / 4096 + 0xE0 := by
    rw [toNat_byte (by omega)]
    omega
  have hcode : ((n / 4096 + 0xE0 - 0xE0) * 64 + n / 64 % 0x40) * 64 + n % 0x40 = n := by omega
  have hrest : ∀ low high : UInt8, low.toNat ≤ n / 64 % 0x40 + 0x80 → n / 64 % 0x40 + 0x80 ≤ high.toNat →
      lossyFrom (some (n / 4096 + 0xE0 - 0xE0,[(low,high),(0x80,0xBF)]))
        (UInt8.ofNat (n / 64 % 0x40 + 0x80) :: UInt8.ofNat (n % 0x40 + 0x80) :: bytes) =
          Char.ofNat n :: lossyFrom none bytes := by
    intro low high hlow hhigh
    rw [lossyFrom_more (Nat.mod_lt _ (by decide)) hlow hhigh, lossyFrom_last (Nat.mod_lt _ (by decide)), hcode]
  rw [lossyFrom_lead (by omega) (lead_three (by omega) (by omega)), hfirst]
  split_ifs <;> apply hrest <;> simp <;> omega

theorem lossyFrom_four (bytes : Bytes) (h : 0x10000 ≤ n) (h' : n < 0x110000) : lossyFrom none
    (UInt8.ofNat (n / 262144 % 0x08 + 0xF0) :: UInt8.ofNat (n / 4096 % 0x40 + 0x80) ::
      UInt8.ofNat (n / 64 % 0x40 + 0x80) :: UInt8.ofNat (n % 0x40 + 0x80) :: bytes) =
        Char.ofNat n :: lossyFrom none bytes := by
  have hfirst : (UInt8.ofNat (n / 262144 % 0x08 + 0xF0)).toNat = n / 262144 + 0xF0 := by
    rw [toNat_byte (by omega)]
    omega
  have hcode : (((n / 262144 + 0xF0 - 0xF0) * 64 + n / 4096 % 0x40) * 64 + n / 64 % 0x40) * 64 + n % 0x40 = n := by
    omega
  have hrest : ∀ low high : UInt8, low.toNat ≤ n / 4096 % 0x40 + 0x80 → n / 4096 % 0x40 + 0x80 ≤ high.toNat →
      lossyFrom (some (n / 262144 + 0xF0 - 0xF0,[(low,high),(0x80,0xBF),(0x80,0xBF)]))
        (UInt8.ofNat (n / 4096 % 0x40 + 0x80) :: UInt8.ofNat (n / 64 % 0x40 + 0x80) ::
          UInt8.ofNat (n % 0x40 + 0x80) :: bytes) = Char.ofNat n :: lossyFrom none bytes := by
    intro low high hlow hhigh
    have hthird : n / 64 % 0x40 + 0x80 ≤ (0xBF : UInt8).toNat := by
      change n / 64 % 0x40 + 0x80 ≤ 0xBF
      omega
    rw [lossyFrom_more (Nat.mod_lt _ (by decide)) hlow hhigh,
      lossyFrom_more (Nat.mod_lt _ (by decide)) (Nat.le_add_left _ _) hthird,
      lossyFrom_last (Nat.mod_lt _ (by decide)), hcode]
  rw [lossyFrom_lead (by omega) (lead_four (by omega) (by omega)), hfirst]
  split_ifs <;> apply hrest <;> simp <;> omega

theorem lossyFrom_encode (c : Char) (bytes : Bytes) :
    lossyFrom none (String.utf8EncodeChar c ++ bytes) = c :: lossyFrom none bytes := by
  have hvalid : c.toNat < 0xD800 ∨ 0xDFFF < c.toNat ∧ c.toNat < 0x110000 := c.valid
  have hchar : Char.ofNat c.toNat = c := Char.ofNat_toNat c
  change lossyFrom none ((if c.toNat ≤ 0x7F then _ else if c.toNat ≤ 0x7FF then _ else
    if c.toNat ≤ 0xFFFF then _ else _) ++ _) = _
  split_ifs with h₁ h₂ h₃
  · have hbyte : (UInt8.ofNat c.toNat).toNat = c.toNat := toNat_byte (by omega)
    have hascii : lossyFrom none (UInt8.ofNat c.toNat :: bytes) = Char.ofNat (UInt8.ofNat c.toNat).toNat ::
        lossyFrom none bytes := lossyFrom_ascii (by omega)
    rw [hbyte, hchar] at hascii
    exact hascii
  · have htwo := lossyFrom_two bytes (n := c.toNat) (by omega) h₂
    rw [hchar] at htwo
    exact htwo
  · have hthree := lossyFrom_three bytes (n := c.toNat) (by omega) h₃ (by omega)
    rw [hchar] at hthree
    exact hthree
  · have hfour := lossyFrom_four bytes (n := c.toNat) (by omega) (by omega)
    rw [hchar] at hfour
    exact hfour

end Decoding

theorem toList_toByteArray (l : Bytes) : l.toByteArray.toList = l := by
  have hloop : ∀ (bytes : ByteArray) (i : ℕ) (r : Bytes),
      ByteArray.toList.loop bytes i r = r.reverse ++ bytes.data.toList.drop i := by
    intro bytes i r
    fun_induction ByteArray.toList.loop bytes i r with
    | case1 i r h ih =>
      have hi : i < bytes.data.toList.length := by simpa using h
      rw [ih, List.drop_eq_getElem_cons hi]
      simp [ByteArray.get!, h]
    | case2 i r h =>
      have hi : bytes.data.toList.length ≤ i := by simpa using Nat.le_of_not_lt h
      rw [List.drop_eq_nil_of_le hi, List.append_nil]
  rw [ByteArray.toList, hloop, List.toList_data_toByteArray]
  rfl

theorem asBytes_eq (s : String) : asBytes s = s.toList.flatMap String.utf8EncodeChar := by
  have hencode : (String.ofList s.toList).toUTF8 = (s.toList.flatMap String.utf8EncodeChar).toByteArray := by
    rw [String.toUTF8_eq_toByteArray, String.toByteArray_ofList]
    rfl
  rw [String.ofList_toList] at hencode
  rw [asBytes, hencode, toList_toByteArray]

theorem lossyFrom_asBytes (s : String) (bytes : Bytes) :
    lossyFrom none (asBytes s ++ bytes) = s.toList ++ lossyFrom none bytes := by
  rw [asBytes_eq]
  induction s.toList with
  | nil => rfl
  | cons c l ih => rw [List.flatMap_cons, List.append_assoc, lossyFrom_encode, ih, List.cons_append]

/-- Text is read back from its bytes. -/
theorem fromUtf8Lossy_asBytes (s : String) : fromUtf8Lossy (asBytes s) = s := by
  have hchars := lossyFrom_asBytes s []
  rw [List.append_nil, lossyFrom, List.append_nil] at hchars
  rw [fromUtf8Lossy, hchars, String.ofList_toList]

theorem asBytes_prefix {s t : String} : asBytes s <+: asBytes t ↔ s.toList <+: t.toList := by
  constructor
  · rintro ⟨bytes,hbytes⟩
    refine ⟨lossyFrom none bytes,?_⟩
    rw [← lossyFrom_asBytes, hbytes, ← String.toList_ofList (l := lossyFrom none (asBytes t))]
    exact congrArg String.toList (fromUtf8Lossy_asBytes t)
  · rintro ⟨l,hl⟩
    rw [asBytes_eq, asBytes_eq, ← hl, List.flatMap_append]
    exact List.prefix_append _ _

end SlatedbCloudflare.Utf8
