import SlatedbCloudflare.Library.Locks
import SlatedbCloudflare.Platform.ObjectStore

/-! # The database slot of an instance

Both services keep at most one opened database in a slot behind an async mutex.
`Op` lists what their handlers ask for, one atomic step each; `Own` stands for the
requests only one of the services makes. Every call on a database or on the
outside may fail.
-/
namespace SlatedbCloudflare.Instance
open Programs Locks ObjectStore

/-- An HTTP status with the text of the error. -/
structure AppError where
  status : ℕ
  message : String
  deriving DecidableEq

namespace AppError

def internal (error : String) : AppError := ⟨500,error⟩
def badRequest (message : String) : AppError := ⟨400,message⟩

end AppError

/-- The check that both services make on a database name. -/
def ValidDatabaseName (name : String) : Prop :=
  name ≠ "" ∧ name.utf8ByteSize ≤ 128 ∧ ∀ c ∈ name.toList, c.isAlphanum = true ∨ c = '-' ∨ c = '_'

instance (name : String) : Decidable (ValidDatabaseName name) :=
  decidable_of_iff (name ≠ "" ∧ name.utf8ByteSize ≤ 128 ∧
    name.toList.all (fun c => c.isAlphanum || c == '-' || c == '_') = true)
    (by simp [ValidDatabaseName, or_assoc])

theorem nameChar_bounds {c : Char} (h : c.isAlphanum = true ∨ c = '-' ∨ c = '_') :
    c ≠ '/' ∧ c ≠ '.' ∧ 33 ≤ c.toNat ∧ c.toNat ≤ 126 := by
  rcases h with h | rfl | rfl
  · have hrange : 48 ≤ c.toNat ∧ c.toNat ≤ 122 := by
      change ((decide (65 ≤ c.val ∧ c.val ≤ 90) || (decide (97 ≤ c.val) && decide (c.val ≤ 122))) ||
        (decide (48 ≤ c.val) && decide (c.val ≤ 57))) = true at h
      simp only [Bool.or_eq_true, Bool.and_eq_true, decide_eq_true_eq, UInt32.le_iff_toNat_le] at h
      change ((65 ≤ c.toNat ∧ c.toNat ≤ 90) ∨ (97 ≤ c.toNat ∧ c.toNat ≤ 122)) ∨
        (48 ≤ c.toNat ∧ c.toNat ≤ 57) at h
      omega
    refine ⟨?_,?_,by omega,by omega⟩
    · rintro rfl
      exact absurd hrange (by decide)
    · rintro rfl
      exact absurd hrange (by decide)
  · decide
  · decide

/-- `db` numbers the `Db` among those the instance opened; its metrics recorder and
adapter counters are the ones it was built with. -/
structure ActiveDb where
  name : String
  db : ℕ
  deriving DecidableEq

/-- An `f64` is kept as its bits. -/
inductive SlateMetricValue
  | counter (value : ℕ)
  | gauge (value : ℤ)
  | upDownCounter (value : ℤ)
  | histogram (count : ℕ) (sum min max : UInt64) (boundaries : List UInt64) (bucketCounts : List ℕ)

structure SlateMetric where
  name : String
  labels : List (String × String)
  value : SlateMetricValue

inductive Op (Own : Type)
  | active
  | takeActive
  | setActive (a : ActiveDb)
  | build (name : String)
  | close (db : ℕ)
  | get (db : ℕ) (key : Bytes)
  | put (db : ℕ) (key value : Bytes) (awaitDurable : Bool)
  | delete (db : ℕ) (key : Bytes)
  | flush (db : ℕ)
  | scan (db : ℕ)
  | scanPrefix (db : ℕ) (start : Bytes)
  | next (db iterator : ℕ)
  | metrics (db : ℕ)
  | now
  | own (r : Own)

variable {Own : Type} {Returned : Own → Type}

abbrev Reply (Returned : Own → Type) : Op Own → Type
  | .active => Option ActiveDb
  | .takeActive => Option ActiveDb
  | .setActive _ => Unit
  | .build _ => Except String ℕ
  | .close _ => Except String Unit
  | .get _ _ => Except String (Option Bytes)
  | .put _ _ _ _ => Except String Unit
  | .delete _ _ => Except String Unit
  | .flush _ => Except String Unit
  | .scan _ => Except String ℕ
  | .scanPrefix _ _ => Except String ℕ
  | .next _ _ => Except String (Option (Bytes × Bytes))
  | .metrics _ => List SlateMetric
  | .now => ℕ
  | .own r => Returned r

/-- The slot, the names under which databases were opened, and the databases whose
`close` returned `Ok` or an error. -/
structure State where
  active : Option ActiveDb
  opened : List String
  closed : List ℕ
  failed : List ℕ

namespace State

def empty : State := ⟨none,[],[],[]⟩
def take (s : State) : State := { s with active := none }
def set (s : State) (a : ActiveDb) : State := { s with active := some a }
def build (s : State) (name : String) : State := { s with opened := s.opened ++ [name] }
def close (s : State) (db : ℕ) : State := { s with closed := db :: s.closed }
def fail (s : State) (db : ℕ) : State := { s with failed := db :: s.failed }

/-- The database was opened and has not been successfully closed. -/
def Live (s : State) (db : ℕ) : Prop := db < s.opened.length ∧ db ∉ s.closed

end State

def Does (s : State) : (r : Op Own) → Reply Returned r → State → Prop
  | .active, x, t => x = s.active ∧ t = s
  | .takeActive, x, t => x = s.active ∧ t = s.take
  | .setActive a, _, t => t = s.set a
  | .build name, .ok db, t => db = s.opened.length ∧ t = s.build name
  | .close db, .ok _, t => t = s.close db
  | .close db, .error _, t => t = s.fail db
  | _, _, t => t = s

/-- The requests that no answer turns into a change of the slot. -/
def Op.Harmless : Op Own → Prop
  | .takeActive | .setActive _ | .build _ | .close _ => False
  | _ => True

theorem Op.Harmless.neutral {r : Op Own} (h : r.Harmless) :
    Neutral (@Does Own Returned) r := by
  intro s x t hs
  cases r with
  | takeActive | setActive | build | close => exact h.elim
  | active => exact hs.2
  | _ => exact hs

end SlatedbCloudflare.Instance
