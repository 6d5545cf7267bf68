import SlatedbCloudflare.Instance.State
import SlatedbCloudflare.Platform.Utf8

/-! # What the handlers of both services share

The two services have the same routes and treat their slot in the same ways; how a
database is opened, and the texts of the errors, are parameters.
-/
namespace SlatedbCloudflare.Instance
open Programs Locks ObjectStore Utf8

inductive BenchmarkOperationKind
  | get
  | put
  deriving DecidableEq

structure BenchmarkOperation where
  operation : BenchmarkOperationKind
  key : String

structure BenchmarkOperationMeasurements where
  operations : ℕ
  unmeasurableOperations : ℕ
  measurableLatencyNs : List ℕ

structure BenchmarkBatchResponse where
  get : BenchmarkOperationMeasurements
  put : BenchmarkOperationMeasurements

namespace BenchmarkOperationMeasurements

def empty : BenchmarkOperationMeasurements := ⟨0,0,[]⟩

def merge (m other : BenchmarkOperationMeasurements) : BenchmarkOperationMeasurements :=
  ⟨m.operations + other.operations,m.unmeasurableOperations + other.unmeasurableOperations,
    m.measurableLatencyNs ++ other.measurableLatencyNs⟩

end BenchmarkOperationMeasurements

def BenchmarkBatchResponse.empty : BenchmarkBatchResponse := ⟨.empty,.empty⟩

def BenchmarkBatchResponse.merge (m other : BenchmarkBatchResponse) : BenchmarkBatchResponse :=
  ⟨m.get.merge other.get,m.put.merge other.put⟩

/-- The nanoseconds since `started`, capped to 64 bits. -/
def elapsedNs (started now : ℕ) : ℕ := min (now - started) (2 ^ 64 - 1)

/-- A decoded request to one of the routes of a database. -/
inductive Call
  | put (key value : String)
  | benchmarkBatch (value : String) (clients : List (List BenchmarkOperation))
  | get (key : String)
  | delete (key : String)
  | scan (start : Option String) (limit : Option ℕ)
  | reopen
  | flush
  | clearCache
  | stats

structure StatusResponse (Adapter : Type) where
  runtime : String
  isOpen : Bool
  cachePopulated : Bool
  cacheStorageBytes : ℕ
  adapter : Adapter
  slatedb : List SlateMetric

inductive Answer (Adapter : Type)
  | done
  | value (key : String) (value : Option String)
  | scan (items : List (String × String)) (truncated : Bool)
  | batch (measurements : BenchmarkBatchResponse)
  | status (s : StatusResponse Adapter)

/-- The database in the path, and the call unless the request does not decode to one. -/
structure Request where
  database : String
  call : Except AppError Call

variable {Own : Type} {Returned : Own → Type} {Out Adapter α : Type}

/-- Requests by themselves, and with the mutex of the slot. -/
abbrev OpM (Returned : Own → Type) (Out α : Type) := Prog (Op Own) (Reply Returned) Out AppError α
abbrev HandlerM (Returned : Own → Type) (Out α : Type) := LockedProg (Op Own) (Reply Returned) Out AppError α

def orFail (message : String → AppError) (x : Except String α) : OpM Returned Out α :=
  Prog.orElse x (fun error => .err (message error))

section Slot

/-- `*active = Some(self.open(name).await?)` -/
def install (openDb : String → OpM Returned Out ActiveDb) (name : String) : OpM Returned Out ActiveDb := do
  let opened ← openDb name
  let _ : Unit ← Prog.ask (Op.setActive opened)
  pure opened

/-- The database in the slot, opened on demand. -/
def currentOr (mixed : AppError) (openDb : String → OpM Returned Out ActiveDb) (name : String) :
    OpM Returned Out ℕ := do
  let active : Option ActiveDb ← Prog.ask Op.active
  match active with
  | some current => if current.name ≠ name then .err mixed else pure current.db
  | none => do
    let opened ← install openDb name
    pure opened.db

def closeTaken (message : String → AppError) : Option ActiveDb → OpM Returned Out Unit
  | some current => do
    let closed : Except String Unit ← Prog.ask (Op.close current.db)
    orFail message closed
  | none => pure ()

/-- The slot is emptied, its database closed, `between` done, and a database opened. -/
def replace (message : String → AppError) (between : OpM Returned Out Unit)
    (openDb : String → OpM Returned Out ActiveDb) (name : String) : OpM Returned Out Unit := do
  let active : Option ActiveDb ← Prog.ask Op.takeActive
  closeTaken message active
  between
  let _ ← install openDb name
  pure ()

end Slot

section Data
variable (message : String → AppError) (db : ℕ)

def putValue (key value : String) : OpM Returned Out (Answer Adapter) := do
  let result : Except String Unit ← Prog.ask (Op.put db (asBytes key) (asBytes value) true)
  orFail message result
  pure .done

def getValue (key : String) : OpM Returned Out (Answer Adapter) := do
  let result : Except String (Option Bytes) ← Prog.ask (Op.get db (asBytes key))
  let value ← orFail message result
  pure (.value key (value.map fromUtf8Lossy))

def deleteKey (key : String) : OpM Returned Out (Answer Adapter) := do
  let result : Except String Unit ← Prog.ask (Op.delete db (asBytes key))
  orFail message result
  pure .done

def flushMemTable : OpM Returned Out (Answer Adapter) := do
  let result : Except String Unit ← Prog.ask (Op.flush db)
  orFail message result
  pure .done

def pull (iterator : ℕ) : ℕ → List (String × String) → OpM Returned Out (List (String × String))
  | 0, items => pure items
  | n + 1, items => do
    let result : Except String (Option (Bytes × Bytes)) ← Prog.ask (Op.next db iterator)
    let item ← orFail message result
    match item with
    | none => pure items
    | some (key,value) => pull iterator n (items ++ [(fromUtf8Lossy key,fromUtf8Lossy value)])

/-- `clamp(1, 1000)` -/
def clampLimit (limit : ℕ) : ℕ := if limit < 1 then 1 else if 1000 < limit then 1000 else limit

/-- A scan of everything for an empty prefix; one item more than `limit` tells of truncation. -/
def scanItems (start : String) (limit : ℕ) : OpM Returned Out (Answer Adapter) := do
  let result : Except String ℕ ←
    if start = "" then Prog.ask (Op.scan db) else Prog.ask (Op.scanPrefix db (asBytes start))
  let iterator ← orFail message result
  let items ← pull message db iterator (limit + 1) []
  pure (.scan (items.take limit) (limit < items.length))

def runOperations (run : BenchmarkOperation → BenchmarkBatchResponse → OpM Returned Out BenchmarkBatchResponse) :
    List BenchmarkOperation → BenchmarkBatchResponse → OpM Returned Out BenchmarkBatchResponse
  | [], measurements => pure measurements
  | operation :: rest, measurements => do
    let measured ← run operation measurements
    runOperations run rest measured

/-- The clients' measurements merged in order. The clients run one after another. -/
def runClients (client : List BenchmarkOperation → OpM Returned Out BenchmarkBatchResponse) :
    List (List BenchmarkOperation) → BenchmarkBatchResponse → OpM Returned Out BenchmarkBatchResponse
  | [], measurements => pure measurements
  | operations :: rest, measurements => do
    let measured ← client operations
    runClients client rest (measurements.merge measured)

def benchmarkMessage : String :=
  "benchmark batch must contain 1 to 256 clients with 1 to 512 operations each"

/-- The bounds that both services check before they run a batch. -/
def ValidBatch (clients : List (List BenchmarkOperation)) : Prop :=
  clients ≠ [] ∧ clients.length ≤ 256 ∧
    ∀ operations ∈ clients, operations ≠ [] ∧ operations.length ≤ 512

instance (clients : List (List BenchmarkOperation)) : Decidable (ValidBatch clients) :=
  decidable_of_iff (clients.isEmpty = false ∧ clients.length ≤ 256 ∧
    ∀ operations ∈ clients, operations.isEmpty = false ∧ operations.length ≤ 512)
    (by simp [ValidBatch, ← List.length_pos_iff, List.isEmpty_eq_false_iff])

end Data

end SlatedbCloudflare.Instance
