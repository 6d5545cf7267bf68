import SlatedbCloudflare.Platform.R2

/-! # Conditional reads of R2 -/
namespace SlatedbCloudflare.R2
open ObjectStore

/-- R2 answering the reads of one object, where there may be one. -/
def holding (R : Rules) (found : Option Object) : (r : Request) → Reply r
  | .bucket => .ok ()
  | .head _ => .ok found
  | .get _ c range => match found with
    | none => .ok none
    | some o => match R.read c range o with
      | some body => .ok (some (o,body))
      | none => .error "the read is refused"
  | .body bytes => .ok bytes
  | _ => .error "not a read"

/-- The condition holds of a stored object. `before` and `after` compare its upload
time with a date. -/
def Conditional.Holds (before after : ℕ → ℕ → Prop) (c : Conditional) (o : Object) : Prop :=
  (match c.etagMatches with
    | some tag => Rules.matchesTag tag o = true
    | none => ∀ date ∈ c.uploadedBefore, before o.uploaded date) ∧
  match c.etagDoesNotMatch with
  | some tag => Rules.matchesTag tag o = false
  | none => ∀ date ∈ c.uploadedAfter, after o.uploaded date

/-- R2 returns a body exactly if the condition holds. -/
structure Rules.ReadsConditionally (R : Rules) (before after : ℕ → ℕ → Prop) : Prop where
  body : ∀ {c : Conditional} {o : Object}, c.Holds before after o →
    R.read (.conditional c) .whole o = some (some o.content)
  noBody : ∀ {c : Conditional} {o : Object}, ¬ c.Holds before after o →
    R.read (.conditional c) .whole o = some none

theorem Rules.standard_readsConditionally : Rules.standard.ReadsConditionally (· < ·) (· > ·) := by
  have hiff : ∀ (c : Conditional) (o : Object),
      Rules.conditionalHolds c (some o) = true ↔ c.Holds (· < ·) (· > ·) o := by
    intro c o
    obtain ⟨tag,other,date,date'⟩ := c
    cases tag <;> cases other <;> cases date <;> cases date' <;>
      simp [Rules.conditionalHolds, Conditional.Holds, and_comm]
  constructor
  · intro c o h
    have htrue := (hiff c o).mpr h
    simp [Rules.standard, Rules.standardEvaluate, htrue]
  · intro c o h
    have hfalse : Rules.conditionalHolds c (some o) = false :=
      Bool.eq_false_iff.mpr fun htrue => h ((hiff c o).mp htrue)
    simp [Rules.standard, Rules.standardEvaluate, hfalse]

end SlatedbCloudflare.R2
