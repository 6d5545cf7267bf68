import SlatedbCloudflare.Instance.OneDatabase
import SlatedbCloudflare.Library.Histories
import SlatedbCloudflare.Library.Threads

/-! # The databases behind an instance

Beside the slot there are the databases themselves: the log of the writes to each, how
much of it is safe from a crash, and the iterators over them. A database answers as
documented while it is the only live one; nothing is said about others.
-/
namespace SlatedbCloudflare.Instance
open Programs Locks ObjectStore Histories

abbrev Log := List (Write Bytes Bytes)

/-- The order of keys, and which of them a scan of a prefix finds. -/
def byteKeys : Keys Bytes := ⟨fun a b => a < b,fun start key => start <+: key⟩

structure Data where
  logs : String → Log
  durable : String → ℕ
  iterators : ℕ → List (Bytes × Bytes)
  created : ℕ

namespace Data

def content (d : Data) (name : String) : Bytes → Option Bytes := replay (d.logs name)

def write (d : Data) (name : String) (key : Bytes) (value : Option Bytes) : Data :=
  { d with logs := Function.update d.logs name (d.logs name ++ [(key,value)]) }

/-- Everything written to the database is safe. -/
def sync (d : Data) (name : String) : Data :=
  { d with durable := Function.update d.durable name (d.logs name).length }

def iterate (d : Data) (entries : List (Bytes × Bytes)) : Data :=
  { d with iterators := Function.update d.iterators d.created entries, created := d.created + 1 }

def leave (d : Data) (iterator : ℕ) (entries : List (Bytes × Bytes)) : Data :=
  { d with iterators := Function.update d.iterators iterator entries }

def opening (logs : String → Log) : Data := ⟨logs,fun name => (logs name).length,fun _ => [],0⟩

end Data

structure World where
  slot : State
  data : Data

namespace World

/-- The database is live, and no other is. -/
def Sole (w : World) (db : ℕ) : Prop := w.slot.Live db ∧ ∀ d, w.slot.Live d → d = db

def name (w : World) (db : ℕ) : String := w.slot.opened.getD db ""

end World

variable {Own : Type} {Returned : Own → Type}

def Scans (w : World) (db : ℕ) (start : Bytes) (iterator : ℕ) (t : World) : Prop :=
  w.slot.Live db ∧ iterator = w.data.created ∧ ∃ entries, t.data = w.data.iterate entries ∧
    (w.Sole db → Lists byteKeys (w.data.content (w.name db)) start entries)

/-- A write that was reported as done. -/
def Writes (w : World) (db : ℕ) (key : Bytes) (value : Option Bytes) (awaitDurable : Bool) (t : World) : Prop :=
  w.slot.Live db ∧ (w.Sole db → t.data =
    if awaitDurable then (w.data.write (w.name db) key value).sync (w.name db) else w.data.write (w.name db) key value)

/-- A write that was reported as failed was made or not. -/
def Attempted (w : World) (db : ℕ) (key : Bytes) (value : Option Bytes) (t : World) : Prop :=
  (¬ w.slot.Live db → t.data = w.data) ∧
    (w.Sole db → t.data = w.data ∨ t.data = w.data.write (w.name db) key value)

def Behaves (w : World) : (r : Op Own) → Reply Returned r → World → Prop
  | .put db key value awaitDurable, .ok _, t => Writes w db key (some value) awaitDurable t
  | .put db key value _, .error _, t => Attempted w db key (some value) t
  | .delete db key, .ok _, t => Writes w db key none true t
  | .delete db key, .error _, t => Attempted w db key none t
  | .get db key, .ok found, t => w.slot.Live db ∧ t.data = w.data ∧
      (w.Sole db → found = w.data.content (w.name db) key)
  | .flush db, .ok _, t => w.slot.Live db ∧ (w.Sole db → t.data = w.data.sync (w.name db))
  | .scan db, .ok iterator, t => Scans w db [] iterator t
  | .scanPrefix db start, .ok iterator, t => Scans w db start iterator t
  | .next _ iterator, .ok item, t =>
      item = (w.data.iterators iterator).head? ∧ t.data = w.data.leave iterator (w.data.iterators iterator).tail
  | .next _ iterator, .error _, t => ∃ entries, t.data = w.data.leave iterator entries
  | .build _, .ok _, t => (∀ d, ¬ w.slot.Live d) → t.data = w.data
  | .close db, .ok _, t => (¬ w.slot.Live db → t.data = w.data) ∧ (w.Sole db → t.data = w.data.sync (w.name db))
  | _, _, t => t.data = w.data

structure Acts (w : World) (r : Op Own) (x : Reply Returned r) (t : World) : Prop where
  slot : Does w.slot r x t.slot
  data : Behaves w r x t

abbrev Events (ι : Type) {Own : Type} (Returned : Own → Type) := List (Event ι World (Op Own) (Reply Returned))

end SlatedbCloudflare.Instance
