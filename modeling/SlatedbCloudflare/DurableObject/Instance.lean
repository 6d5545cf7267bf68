import SlatedbCloudflare.Instance.Handlers
import SlatedbCloudflare.DurableObject.Cache

/-! # The Durable Object of a database -/
namespace SlatedbCloudflare.SlateDbObject
open Programs Locks ObjectStore Utf8 Instance DoCache Perf

variable {L : LocalCacheHead}

/-- What the object asks for besides its slot and databases. -/
inductive Own (L : LocalCacheHead)
  | fromStorage (database : String)
  | storage (r : Storage.Request L.Head)
  | databaseSize
  | snapshot

abbrev PerfSnapshot := PerfCounter → ℕ

abbrev Returned : Own L → Type
  | .fromStorage _ => Except String Unit
  | .storage r => Storage.Reply r
  | .databaseSize => ℕ
  | .snapshot => PerfSnapshot

abbrev ObjectM (L : LocalCacheHead) (α : Type) := OpM (Returned (L := L)) Increment α
abbrev RouteM (L : LocalCacheHead) (α : Type) := HandlerM (Returned (L := L)) Increment α

def onStorage {α : Type} : CacheM L String α → ObjectM L α
  | .ok a => .ok a
  | .err e => .err (.internal e)
  | .emit o p => .emit o (onStorage p)
  | .call r k => .call (.own (.storage r)) (fun x => onStorage (k x))

def slatedbError (error : String) : AppError := .internal ("SlateDB: " ++ error)

def twoNames : AppError := .internal "Durable Object was routed with two database names"

/-- `SlateDbObject::open` -/
def openDb (database : String) : ObjectM L ActiveDb := do
  let cached : Except String Unit ← Prog.ask (Op.own (Own.fromStorage database))
  orFail slatedbError cached
  let built : Except String ℕ ← Prog.ask (Op.build database)
  let db ← orFail slatedbError built
  pure ⟨database,db⟩

def database (name : String) : RouteM L ℕ := withLock (currentOr twoNames openDb name)

def reopen (name : String) : RouteM L Unit := withLock (replace slatedbError (pure ()) openDb name)

def record (m : BenchmarkOperationMeasurements) (latencyNs : ℕ) : BenchmarkOperationMeasurements :=
  if latencyNs = 0 then
    { m with operations := m.operations + 1, unmeasurableOperations := m.unmeasurableOperations + 1 }
  else
    { m with operations := m.operations + 1, measurableLatencyNs := m.measurableLatencyNs ++ [latencyNs] }

def runBenchmarkOperation (db : ℕ) (value : Bytes) (operation : BenchmarkOperation)
    (measurements : BenchmarkBatchResponse) : ObjectM L BenchmarkBatchResponse := do
  let started : ℕ ← Prog.ask Op.now
  match operation.operation with
  | .get => do
    let result : Except String (Option Bytes) ← Prog.ask (Op.get db (asBytes operation.key))
    let found ← orFail slatedbError result
    let now : ℕ ← Prog.ask Op.now
    match found with
    | none => .err (.internal "benchmark key not found")
    | some _ => pure { measurements with get := record measurements.get (elapsedNs started now) }
  | .put => do
    let result : Except String Unit ← Prog.ask (Op.put db (asBytes operation.key) value false)
    orFail slatedbError result
    let now : ℕ ← Prog.ask Op.now
    pure { measurements with put := record measurements.put (elapsedNs started now) }

def runBenchmarkClient (db : ℕ) (value : Bytes) (operations : List BenchmarkOperation) :
    ObjectM L BenchmarkBatchResponse :=
  runOperations (runBenchmarkOperation db value) operations .empty

/-- `usize` in WebAssembly. -/
def USIZE_BITS : ℕ := 32

/-- `value.parse::<usize>().ok()` on a decimal number. -/
def parseUsize (n : ℕ) : Option ℕ := if n < 2 ^ USIZE_BITS then some n else none

def activeMetrics : ObjectM L (Bool × List SlateMetric) := do
  let active : Option ActiveDb ← Prog.ask Op.active
  match active with
  | some current => do
    let metrics : List SlateMetric ← Prog.ask (Op.metrics current.db)
    pure (true,metrics)
  | none => pure (false,[])

def status (read : Bool × List SlateMetric) : ObjectM L (Answer PerfSnapshot) := do
  let cachePopulated ← onStorage isPopulated
  let cacheStorageBytes : ℕ ← Prog.ask (Op.own Own.databaseSize)
  let adapter : PerfSnapshot ← Prog.ask (Op.own Own.snapshot)
  pure (.status ⟨"durable-object",read.1,cachePopulated,cacheStorageBytes,adapter,read.2⟩)

def clearCache : ObjectM L (Answer PerfSnapshot) := do
  onStorage clear
  pure .done

def route (name : String) : Call → RouteM L (Answer PerfSnapshot)
  | .put key value => do
    let db ← database name
    free (putValue slatedbError db key value)
  | .benchmarkBatch value clients =>
    if ¬ ValidBatch clients then .err (.badRequest benchmarkMessage)
    else do
      let db ← database name
      free do
        let measurements ← runClients (runBenchmarkClient db (asBytes value)) clients .empty
        pure (.batch measurements)
  | .get key => do
    let db ← database name
    free (getValue slatedbError db key)
  | .delete key => do
    let db ← database name
    free (deleteKey slatedbError db key)
  | .scan start limit => do
    let db ← database name
    free (scanItems slatedbError db (start.getD "") (clampLimit ((limit.bind parseUsize).getD 100)))
  | .reopen => do
    reopen name
    pure .done
  | .flush => do
    let db ← database name
    free (flushMemTable slatedbError db)
  | .clearCache => free clearCache
  | .stats => do
    let read ← withLock activeMetrics
    free (status read)

def handle (req : Request) : RouteM L (Answer PerfSnapshot) :=
  if ¬ ValidDatabaseName req.database then .err (.internal "invalid database name")
  else match req.call with
    | .ok call => route req.database call
    | .error rejection => .err rejection

end SlatedbCloudflare.SlateDbObject
