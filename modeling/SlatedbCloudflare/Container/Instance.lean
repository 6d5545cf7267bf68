import SlatedbCloudflare.Instance.Handlers

/-! # The process of a container -/
namespace SlatedbCloudflare.AppState
open Programs Locks ObjectStore Utf8 Instance

/-- Of the kinds of I/O errors only a missing file is told apart. -/
inductive IoError
  | notFound
  | other (error : String)

/-- What the process asks for besides its slot and databases. -/
inductive Own
  | createDirAll (path : String)
  | removeDirAll (path : String)
  | directorySize (path : String)
  | adapter (db : ℕ)

abbrev Counters := List (String × ℕ)

abbrev Returned : Own → Type
  | .createDirAll _ => Except String Unit
  | .removeDirAll _ => Except IoError Unit
  | .directorySize _ => Except String ℕ
  | .adapter _ => Counters

abbrev ProcessM (α : Type) := OpM Returned Empty α
abbrev RouteM (α : Type) := HandlerM Returned Empty α

def CACHE_ROOT : String := "/var/cache/slatedb"

def cacheDir (name : String) : String := CACHE_ROOT ++ "/" ++ name

def twoNames : AppError := .internal "container was routed with two database names"

def validateDatabaseName (name : String) : RouteM Unit :=
  if ValidDatabaseName name then pure () else .err (.badRequest "invalid database name")

def openDatabase (name : String) : ProcessM ActiveDb := do
  let created : Except String Unit ← Prog.ask (Op.own (Own.createDirAll (cacheDir name)))
  orFail .internal created
  let built : Except String ℕ ← Prog.ask (Op.build name)
  let db ← orFail .internal built
  pure ⟨name,db⟩

def database (name : String) : RouteM ℕ := do
  validateDatabaseName name
  withLock (currentOr twoNames openDatabase name)

def reopen (name : String) : RouteM (Answer Counters) := do
  validateDatabaseName name
  withLock (replace .internal (pure ()) openDatabase name)
  pure .done

def removeCache (name : String) : ProcessM Unit := do
  let removed : Except IoError Unit ← Prog.ask (Op.own (Own.removeDirAll (cacheDir name)))
  match removed with
  | .ok () => pure ()
  | .error .notFound => pure ()
  | .error (.other error) => .err (.internal error)

def clearCache (name : String) : RouteM (Answer Counters) := do
  validateDatabaseName name
  withLock (replace .internal (removeCache name) openDatabase name)
  pure .done

def activeMetrics : ProcessM (Bool × Counters × List SlateMetric) := do
  let active : Option ActiveDb ← Prog.ask Op.active
  match active with
  | some current => do
    let adapter : Counters ← Prog.ask (Op.own (Own.adapter current.db))
    let metrics : List SlateMetric ← Prog.ask (Op.metrics current.db)
    pure (true,adapter,metrics)
  | none => pure (false,[],[])

def status (name : String) (read : Bool × Counters × List SlateMetric) : ProcessM (Answer Counters) := do
  let size : Except String ℕ ← Prog.ask (Op.own (Own.directorySize (cacheDir name)))
  let cacheStorageBytes ← orFail .internal size
  pure (.status ⟨"container",read.1,0 < cacheStorageBytes,cacheStorageBytes,read.2.1,read.2.2⟩)

def stats (name : String) : RouteM (Answer Counters) := do
  validateDatabaseName name
  let read ← withLock activeMetrics
  free (status name read)

def record (m : BenchmarkOperationMeasurements) (latencyNs : ℕ) : BenchmarkOperationMeasurements :=
  { m with operations := m.operations + 1, measurableLatencyNs := m.measurableLatencyNs ++ [latencyNs] }

def runBenchmarkOperation (db : ℕ) (value : Bytes) (operation : BenchmarkOperation)
    (result : BenchmarkBatchResponse) : ProcessM BenchmarkBatchResponse := do
  let started : ℕ ← Prog.ask Op.now
  match operation.operation with
  | .get => do
    let found : Except String (Option Bytes) ← Prog.ask (Op.get db (asBytes operation.key))
    let found ← orFail .internal found
    match found with
    | none => .err (.internal "benchmark key not found")
    | some _ => do
      let now : ℕ ← Prog.ask Op.now
      pure { result with get := record result.get (elapsedNs started now) }
  | .put => do
    let written : Except String Unit ← Prog.ask (Op.put db (asBytes operation.key) value false)
    orFail .internal written
    let now : ℕ ← Prog.ask Op.now
    pure { result with put := record result.put (elapsedNs started now) }

def runBenchmarkClient (db : ℕ) (value : Bytes) (operations : List BenchmarkOperation) :
    ProcessM BenchmarkBatchResponse :=
  runOperations (runBenchmarkOperation db value) operations .empty

def benchmarkBatch (name value : String) (clients : List (List BenchmarkOperation)) :
    RouteM (Answer Counters) :=
  if ¬ ValidBatch clients then .err (.badRequest benchmarkMessage)
  else do
    let db ← database name
    free do
      let result ← runClients (runBenchmarkClient db (asBytes value)) clients .empty
      pure (.batch result)

/-- The handlers behind the router. A request that does not decode is rejected by
its extractors. -/
def handle (req : Request) : RouteM (Answer Counters) :=
  match req.call with
  | .error rejection => .err rejection
  | .ok (.put key value) => do
    let db ← database req.database
    free (putValue .internal db key value)
  | .ok (.benchmarkBatch value clients) => benchmarkBatch req.database value clients
  | .ok (.get key) => do
    let db ← database req.database
    free (getValue .internal db key)
  | .ok (.delete key) => do
    let db ← database req.database
    free (deleteKey .internal db key)
  | .ok (.scan start limit) => do
    let db ← database req.database
    free (scanItems .internal db (start.getD "") (clampLimit (limit.getD 100)))
  | .ok .reopen => reopen req.database
  | .ok .flush => do
    let db ← database req.database
    free (flushMemTable .internal db)
  | .ok .clearCache => clearCache req.database
  | .ok .stats => stats req.database

end SlatedbCloudflare.AppState
