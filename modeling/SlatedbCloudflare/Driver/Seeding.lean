import SlatedbCloudflare.Instance.Handlers
import SlatedbCloudflare.Library.Tasks
import SlatedbCloudflare.Library.Framing

/-! # Balanced seeding

Every database is seeded by a task of its own. A task cuts the records into batches
of clients, sends one batch at a time, and merges the measurements it gets back.
-/
namespace SlatedbCloudflare.Benchmark
open Programs Tasks Instance

/-- What `readConfig` leaves of the environment for the seeding. -/
structure Config where
  databasePrefix : String
  databases : ℕ
  records : ℕ
  concurrency : ℕ
  batchSize : ℕ
  value : String
  records_pos : 1 ≤ records
  concurrency_bounds : 1 ≤ concurrency ∧ concurrency ≤ 256
  batchSize_bounds : 1 ≤ batchSize ∧ batchSize ≤ 512

abbrev EmbeddedMeasurements := BenchmarkOperationMeasurements

def emptyEmbeddedMeasurements : EmbeddedMeasurements := ⟨0,0,[]⟩

/-- `push(...source.measurableLatencyNs)` makes each latency an argument of the call, and
`spread` is the most arguments that the engine takes. -/
def mergeEmbedded (spread : ℕ) (target source : EmbeddedMeasurements) : Except String EmbeddedMeasurements :=
  let merged : EmbeddedMeasurements := ⟨target.operations + source.operations,
    target.unmeasurableOperations + source.unmeasurableOperations,
    target.measurableLatencyNs ++ source.measurableLatencyNs⟩
  if source.measurableLatencyNs.length ≤ spread then .ok merged else .error "Maximum call stack size exceeded"

/-- `padStart` with a single character. -/
def padStart (length : ℕ) (pad : Char) (text : String) : String :=
  String.ofList (List.replicate (length - text.length) pad) ++ text

def seedKey (record : ℕ) : String := "seed-" ++ padStart 8 '0' (toString record)

def seedOperation (record : ℕ) : BenchmarkOperation := ⟨.put,seedKey record⟩

/-- The request of `benchmarkBatch`. -/
structure BatchRequest where
  database : String
  clients : List (List BenchmarkOperation)
  value : String

abbrev BatchReply : BatchRequest → Type := fun _ => Except String BenchmarkBatchResponse

namespace Config
variable (config : Config)

def database (index : ℕ) : String := config.databasePrefix ++ "-" ++ toString index

def fillOperations (operations : List BenchmarkOperation) (next : ℕ) : List BenchmarkOperation × ℕ :=
  if operations.length < config.batchSize ∧ next < config.records then
    fillOperations (operations ++ [seedOperation next]) (next + 1)
  else (operations,next)
termination_by config.records - next

/-- `Array.from` over `n` clients, which advance the counter one after another. -/
def fillClients : ℕ → ℕ → List (List BenchmarkOperation) × ℕ
  | 0, next => ([],next)
  | n + 1, next =>
    let client := config.fillOperations [] next
    let others := fillClients n client.2
    (client.1 :: others.1,others.2)

def nextBatch (next : ℕ) : List (List BenchmarkOperation) × ℕ :=
  let filled := config.fillClients config.concurrency next
  (filled.1.filter (fun operations => 0 < operations.length),filled.2)

section Batches
variable {config}

theorem fillOperations_eq (operations : List BenchmarkOperation) (next : ℕ) :
    config.fillOperations operations next =
      (operations ++ (List.range' next (min (config.batchSize - operations.length) (config.records - next))).map
        seedOperation,next + min (config.batchSize - operations.length) (config.records - next)) := by
  fun_induction fillOperations config operations next with
  | case1 operations next h ih =>
    have hcount : min (config.batchSize - operations.length) (config.records - next) =
        min (config.batchSize - (operations.length + 1)) (config.records - (next + 1)) + 1 := by omega
    rw [ih, List.length_append, List.length_singleton, hcount, List.range'_succ, List.map_cons, List.append_assoc]
    simp only [List.singleton_append, Prod.mk.injEq, true_and]
    omega
  | case2 operations next h =>
    have hcount : min (config.batchSize - operations.length) (config.records - next) = 0 := by omega
    simp [hcount]

theorem fillOperations_nil (next : ℕ) : config.fillOperations [] next =
    ((List.range' next (min config.batchSize (config.records - next))).map seedOperation,
      next + min config.batchSize (config.records - next)) := by
  rw [fillOperations_eq]
  rfl

/-- The clients of a batch take as many of the remaining records as they can hold. -/
theorem fillClients_eq (n next : ℕ) :
    (config.fillClients n next).1.flatten =
        (List.range' next (min (n * config.batchSize) (config.records - next))).map seedOperation ∧
      (config.fillClients n next).2 = next + min (n * config.batchSize) (config.records - next) := by
  induction n generalizing next with
  | zero => simp [fillClients]
  | succ n ih =>
    have hcount : min ((n + 1) * config.batchSize) (config.records - next) =
        min config.batchSize (config.records - next) + min (n * config.batchSize)
          (config.records - (next + min config.batchSize (config.records - next))) := by
      rw [Nat.succ_mul]
      omega
    obtain ⟨hflatten,hnext⟩ := ih (next + min config.batchSize (config.records - next))
    simp only [fillClients, fillOperations_nil, List.flatten_cons, hflatten, hnext, hcount]
    rw [← List.map_append, List.range'_append_1]
    simp only [true_and]
    omega

theorem length_fillClients (n next : ℕ) : (config.fillClients n next).1.length = n := by
  induction n generalizing next with
  | zero => rfl
  | succ n ih => simp [fillClients, ih]

theorem fillClients_bounded {n next : ℕ} :
    ∀ operations ∈ (config.fillClients n next).1, operations.length ≤ config.batchSize := by
  induction n generalizing next with
  | zero => simp [fillClients]
  | succ n ih =>
    intro operations h
    rcases List.mem_cons.mp h with rfl | h
    · simp [fillOperations_nil]
    · exact ih operations h

theorem flatten_nonempty {α : Type} (l : List (List α)) :
    (l.filter (fun x => 0 < x.length)).flatten = l.flatten := by
  induction l with
  | nil => rfl
  | cons x l ih => cases x <;> simp [ih]

def batchCount (config : Config) (next : ℕ) : ℕ :=
  min (config.concurrency * config.batchSize) (config.records - next)

theorem nextBatch_next (next : ℕ) : (config.nextBatch next).2 = next + config.batchCount next :=
  (fillClients_eq _ _).2

theorem nextBatch_flatten (next : ℕ) : (config.nextBatch next).1.flatten =
    (List.range' next (config.batchCount next)).map seedOperation := by
  rw [nextBatch, flatten_nonempty]
  exact (fillClients_eq _ _).1

theorem batchCount_pos {next : ℕ} (h : next < config.records) : 0 < config.batchCount next := by
  have hfull := Nat.mul_pos config.concurrency_bounds.1 config.batchSize_bounds.1
  unfold batchCount
  omega

/-- While records remain, the services accept the batch. -/
theorem nextBatch_valid {next : ℕ} (h : next < config.records) : ValidBatch (config.nextBatch next).1 := by
  refine ⟨?_,?_,?_⟩
  · intro hnil
    have hflatten := config.nextBatch_flatten next
    rw [hnil] at hflatten
    have hlength := congrArg List.length hflatten
    have hpos := batchCount_pos h
    simp at hlength
    omega
  · have hfilter := List.length_filter_le (fun operations : List BenchmarkOperation => 0 < operations.length)
      (config.fillClients config.concurrency next).1
    rw [length_fillClients] at hfilter
    exact hfilter.trans config.concurrency_bounds.2
  · intro operations hmem
    obtain ⟨hfilled,hpos⟩ := List.mem_filter.mp hmem
    have hbounded := fillClients_bounded operations hfilled
    exact ⟨List.ne_nil_of_length_pos (of_decide_eq_true hpos),hbounded.trans config.batchSize_bounds.2⟩

end Batches

def seedFrom (spread : ℕ) (database : String) (next : ℕ) (measurements : EmbeddedMeasurements) :
    Task BatchRequest BatchReply String EmbeddedMeasurements :=
  if _h : next < config.records then do
    let batch := config.nextBatch next
    let reply : Except String BenchmarkBatchResponse ← Prog.ask ⟨database,batch.1,config.value⟩
    let response ← Prog.orElse reply .err
    let merged ← Prog.orElse (mergeEmbedded spread measurements response.put) .err
    seedFrom spread database batch.2 merged
  else .ok measurements
termination_by config.records - next
decreasing_by
  have hpos := batchCount_pos _h
  have hnext := config.nextBatch_next next
  omega

def seedBalancedDatabase (spread : ℕ) (database : String) :
    Task BatchRequest BatchReply String EmbeddedMeasurements :=
  config.seedFrom spread database 0 emptyEmbeddedMeasurements

/-- `databases.map(seedBalancedDatabase)` -/
def seedTasks (spread : ℕ) (index : Fin config.databases) :
    Task BatchRequest BatchReply String EmbeddedMeasurements :=
  config.seedBalancedDatabase spread (config.database index)

/-- The measurements of all databases once every task has fulfilled. -/
def seedBalanced (spread : ℕ)
    (tasks : Fin config.databases → Task BatchRequest BatchReply String EmbeddedMeasurements) :
    Option EmbeddedMeasurements := do
  let measured ← (List.ofFn tasks).mapM fulfilled
  (measured.foldlM (mergeEmbedded spread) emptyEmbeddedMeasurements).toOption

end Config

end SlatedbCloudflare.Benchmark
