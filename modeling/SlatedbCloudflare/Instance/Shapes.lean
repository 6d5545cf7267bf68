import SlatedbCloudflare.Instance.OneDatabase

/-! # What each route does with the slot

The handlers of both services come in five shapes. What holds of the shapes
holds of every route.
-/
namespace SlatedbCloudflare.Instance
open Programs Locks ObjectStore

section Quiet
variable {Own : Type} {Returned : Own → Type} {Out α : Type}

abbrev Replies (Returned : Own → Type) := List ((r : Locked (Op Own)) × Locked.Reply (Reply Returned) r)

/-- The request may be made without an effect on the slot. -/
def Quiet : Locked (Op Own) → Prop
  | .lock | .unlock => True
  | .act r => r.Harmless

theorem asks_free {p : Prog (Op Own) (Reply Returned) Out AppError α} (hp : p.Asks Op.Harmless) :
    (free p).Asks Quiet := by
  induction p with
  | ok a => trivial
  | err e => trivial
  | emit o p ih => exact ih hp
  | call r k ih => exact ⟨hp.1,fun x => ih x (hp.2 x)⟩

theorem asks_withLock {p : Prog (Op Own) (Reply Returned) Out AppError α} (hp : p.Asks Op.Harmless) :
    (withLock p).Asks Quiet := by
  have hrelease : (release p).Asks Quiet := by
    induction p with
    | ok a => exact ⟨trivial,fun _ => trivial⟩
    | err e => exact ⟨trivial,fun _ => trivial⟩
    | emit o p ih => exact ih hp
    | call r k ih => exact ⟨hp.1,fun x => ih x (hp.2 x)⟩
  exact ⟨trivial,fun _ => hrelease⟩

theorem quiet_chain {tr : Replies Returned} (hq : ∀ x ∈ tr, Quiet x.1) {s t : State × Option Unit}
    (hc : Chain (Alone Does ()) s tr t) : t.1 = s.1 := by
  induction hc with
  | nil s => rfl
  | @cons s u t r x tr hs _ ih =>
    obtain ⟨hr,hrest⟩ := List.forall_mem_cons.mp hq
    rw [ih hrest]
    cases r with
    | lock => exact hs.2.2
    | unlock => exact hs.2.2
    | act r => exact hr.neutral _ _ _ hs.1

end Quiet

inductive SlotUse
  | spares
  | opens
  | replaces
  deriving DecidableEq

section Shapes
variable {Own : Type} {Returned : Own → Type} {Out α : Type} {mixed : AppError}
  {openDb : String → OpM Returned Out ActiveDb} {name : String}

inductive Shape (mixed : AppError) (openDb : String → OpM Returned Out ActiveDb) (name : String) :
    SlotUse → HandlerM Returned Out α → Prop
  | rejected (e : AppError) : Shape mixed openDb name .spares (.err e)
  | free {p : OpM Returned Out α} (hp : p.Asks Op.Harmless) :
      Shape mixed openDb name .spares (Locks.free p)
  | reading {β : Type} {p : OpM Returned Out β} {f : β → OpM Returned Out α} (hp : p.Asks Op.Harmless)
      (hf : ∀ b, (f b).Asks Op.Harmless) :
      Shape mixed openDb name .spares (do let b ← withLock p; Locks.free (f b))
  | guarded {f : ℕ → OpM Returned Out α} (hf : ∀ db, (f db).Asks Op.Harmless) :
      Shape mixed openDb name .opens (do let db ← withLock (currentOr mixed openDb name); Locks.free (f db))
  | replacing (message : String → AppError) {between : OpM Returned Out Unit}
      (hb : between.Asks Op.Harmless) (a : α) :
      Shape mixed openDb name .replaces (do withLock (replace message between openDb name); pure a)

variable {q : HandlerM Returned Out α} {use : SlotUse}

theorem Shape.keeps (h : Shape mixed openDb name use q) (ho : Opening openDb) : Keeps q := by
  cases h with
  | rejected e => exact fun _ => rfl
  | free hp => exact Keeps.free hp
  | reading hp hf => exact Keeps.reading hp hf
  | guarded hf => exact Keeps.guarded ho mixed name hf
  | replacing message hb a => exact Keeps.replacing message ho hb fun _ _ => rfl

theorem Shape.quiet (h : Shape mixed openDb name .spares q) : q.Asks Quiet := by
  cases h with
  | rejected e => trivial
  | free hp => exact asks_free hp
  | reading hp hf => exact (asks_withLock hp).bind fun b => asks_free (hf b)

/-- With a database in the slot, a request that does not replace it leaves the slot alone. -/
theorem Shape.keeps_active (h : Shape mixed openDb name use q) (huse : use ≠ .replaces)
    {tr : Replies Returned} {os : List Out} {r : Except AppError α} (hr : Returns q tr os r)
    {s t : State} {a : ActiveDb} (ha : s.active = some a)
    (hc : Chain (Alone Does ()) (s,none) tr (t,none)) : t = s := by
  cases use with
  | spares => exact quiet_chain (hr.asks h.quiet) hc
  | replaces => exact absurd rfl huse
  | opens =>
    cases h with
    | guarded hf =>
    rename_i f
    obtain ⟨x₁,tr₁,rfl,h₁⟩ := hr.of_call
    obtain ⟨⟨s₁,g₁⟩,hs₁,hc₁⟩ := hc.of_cons
    obtain ⟨_,rfl,rfl⟩ := hs₁
    obtain ⟨x₂,tr₂,rfl,h₂⟩ := h₁.of_call
    obtain ⟨⟨s₂,g₂⟩,hs₂,hc₂⟩ := hc₁.of_cons
    obtain ⟨⟨rfl,rfl⟩,rfl⟩ := hs₂
    beta_reduce at h₂
    rw [ha] at h₂
    have hquiet : (release (if a.name ≠ name then .err mixed else pure a.db : OpM Returned Out ℕ) >>=
        fun db => Locks.free (f db)).Asks Quiet := by
      split_ifs
      · exact ⟨trivial,fun _ => trivial⟩
      · exact ⟨trivial,fun _ => asks_free (hf a.db)⟩
    exact quiet_chain (Consumes.asks h₂ hquiet) hc₂

/-- `openDb name` opens the database `name` and does nothing else to the slot. -/
def OpensNamed (openDb : String → OpM Returned Out ActiveDb) : Prop :=
  ∀ name, (openDb name).Asks fun r => r.Harmless ∨ r = .build name

def Names (name : String) : Locked (Op Own) → Prop
  | .act (.build other) => other = name
  | _ => True

theorem Quiet.names {r : Locked (Op Own)} (h : Quiet r) : Names name r := by
  cases r with
  | lock | unlock => trivial
  | act r =>
    cases r with
    | build other => exact h.elim
    | _ => trivial

theorem names_withLock {p : OpM Returned Out α} (hp : p.Asks fun r => Names name (.act r)) :
    (withLock p).Asks (Names name) := by
  have hrelease : (release p).Asks (Names name) := by
    induction p with
    | ok a => exact ⟨trivial,fun _ => trivial⟩
    | err e => exact ⟨trivial,fun _ => trivial⟩
    | emit o p ih => exact ih hp
    | call r k ih => exact ⟨hp.1,fun x => ih x (hp.2 x)⟩
  exact ⟨trivial,fun _ => hrelease⟩

theorem names_install (ho : OpensNamed openDb) :
    (install openDb name).Asks fun r => Names name (.act r) := by
  have hopen : (openDb name).Asks fun r => Names name (.act r) := by
    apply (ho name).imp
    rintro r (hr | rfl)
    · exact Quiet.names hr
    · exact rfl
  exact hopen.bind fun _ => ⟨trivial,fun _ => trivial⟩

theorem Shape.names (h : Shape mixed openDb name use q) (ho : OpensNamed openDb) :
    q.Asks (Names name) := by
  cases h with
  | rejected e => trivial
  | free hp => exact (asks_free hp).imp fun _ => Quiet.names
  | reading hp hf =>
    exact ((asks_withLock hp).bind fun b => asks_free (hf b)).imp fun _ => Quiet.names
  | guarded hf =>
    have hcurrent : (currentOr mixed openDb name : OpM Returned Out ℕ).Asks fun r => Names name (.act r) := by
      refine ⟨trivial,fun active => ?_⟩
      cases active with
      | none => exact (names_install ho).bind fun _ => trivial
      | some current =>
        change Prog.Asks _ (if current.name ≠ name then .err mixed else pure current.db)
        split_ifs <;> trivial
    exact (names_withLock hcurrent).bind fun db => (asks_free (hf db)).imp fun _ => Quiet.names
  | @replacing message between hb a =>
    have hclose : ∀ active : Option ActiveDb,
        (closeTaken message active : OpM Returned Out Unit).Asks fun r => Names name (.act r) := by
      intro active
      cases active with
      | none => trivial
      | some current => exact ⟨trivial,fun x => orFail_asks message x⟩
    have hbetween : between.Asks fun r => Names name (.act r) :=
      hb.imp fun r hr => Quiet.names (r := .act r) hr
    have hreplace : (replace message between openDb name).Asks fun r => Names name (.act r) :=
      ⟨trivial,fun active => (hclose active).bind fun _ => hbetween.bind fun _ =>
        (names_install ho).bind fun _ => trivial⟩
    exact (names_withLock hreplace).bind fun _ => trivial

end Shapes

/-- How a request uses the slot, given how the clearing of the cache does. -/
def slotUse (clearing : SlotUse) (req : Request) : SlotUse :=
  if ¬ ValidDatabaseName req.database then .spares
  else match req.call with
    | .error _ | .ok .stats => .spares
    | .ok .reopen => .replaces
    | .ok .clearCache => clearing
    | .ok (.benchmarkBatch _ clients) => if ValidBatch clients then .opens else .spares
    | .ok _ => .opens

end SlatedbCloudflare.Instance
