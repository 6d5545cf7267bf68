import SlatedbCloudflare.Instance.OneWriter
import SlatedbCloudflare.Library.Joins

/-! # Batches whose clients run side by side

Both services join the clients of a batch, so that their operations interleave in any
way. A schedule stands for the order in which the clients are polled; without one they
run in order.
-/
namespace SlatedbCloudflare.Instance
open Programs Locks ObjectStore Utf8 Joins

variable {Own : Type} {Returned : Own → Type} {Out Adapter : Type}

def mergeAll (measurements : List BenchmarkBatchResponse) : BenchmarkBatchResponse :=
  measurements.foldl BenchmarkBatchResponse.merge .empty

def joinClients (schedule : List ℕ) (client : List BenchmarkOperation → OpM Returned Out BenchmarkBatchResponse)
    (clients : List (List BenchmarkOperation)) : OpM Returned Out BenchmarkBatchResponse := do
  let measurements ← joinAll schedule (clients.map client)
  pure (mergeAll measurements)

theorem inOrder_merged (client : List BenchmarkOperation → OpM Returned Out BenchmarkBatchResponse)
    (clients : List (List BenchmarkOperation)) (m : BenchmarkBatchResponse) :
    (inOrder (clients.map client) >>= fun measurements =>
      pure (measurements.foldl BenchmarkBatchResponse.merge m)) = runClients client clients m := by
  induction clients generalizing m with
  | nil => rfl
  | cons operations rest ih =>
    rw [List.map_cons, inOrder, runClients, Prog.bind_assoc]
    congr 1
    funext measured
    rw [Prog.bind_assoc, ← ih (m.merge measured)]
    rfl

theorem joinClients_nil (client : List BenchmarkOperation → OpM Returned Out BenchmarkBatchResponse)
    (clients : List (List BenchmarkOperation)) : joinClients [] client clients = runClients client clients .empty :=
  inOrder_merged client clients .empty

theorem joinClients_asks {P : Op Own → Prop} {client : List BenchmarkOperation → OpM Returned Out BenchmarkBatchResponse}
    (schedule : List ℕ) (hc : ∀ operations, (client operations).Asks P) (clients : List (List BenchmarkOperation)) :
    (joinClients schedule client clients).Asks P := by
  have hall : ∀ p ∈ clients.map client, p.Asks P := by
    intro p hp
    obtain ⟨operations,_,rfl⟩ := List.mem_map.mp hp
    exact hc operations
  exact (joinAll_asks schedule hall).bind fun _ => trivial

end SlatedbCloudflare.Instance

namespace SlatedbCloudflare.SlateDbObject
open Programs Locks ObjectStore Utf8 Instance Joins

variable {L : DoCache.LocalCacheHead}

/-- `handle`, with the clients of a batch joined. -/
def handleJoined (schedule : List ℕ) (req : Request) : RouteM L (Answer PerfSnapshot) :=
  match req.call with
  | .ok (.benchmarkBatch value clients) =>
    if ¬ ValidDatabaseName req.database then .err (.internal "invalid database name")
    else if ¬ ValidBatch clients then .err (.badRequest benchmarkMessage)
    else do
      let db ← database req.database
      free do
        let measurements ← joinClients schedule (runBenchmarkClient db (asBytes value)) clients
        pure (.batch measurements)
  | _ => handle req

theorem handleJoined_nil (req : Request) : handleJoined (L := L) [] req = handle req := by
  obtain ⟨name,call⟩ := req
  rcases call with rejection | call
  · rfl
  cases call with
  | benchmarkBatch value clients =>
    simp only [handleJoined, handle, route, joinClients_nil]
  | _ => rfl

theorem runBenchmarkClient_harmless (db : ℕ) (value : Bytes) (operations : List BenchmarkOperation) :
    (runBenchmarkClient (L := L) db value operations).Asks Op.Harmless :=
  runOperations_asks (runBenchmarkOperation_harmless db value) operations _

theorem handleJoined_shape (schedule : List ℕ) (req : Request) :
    Shape twoNames openDb req.database (slotUse .spares req) (handleJoined (L := L) schedule req) := by
  obtain ⟨name,call⟩ := req
  rcases call with rejection | call
  · exact handle_shape _
  cases call with
  | benchmarkBatch value clients =>
    by_cases hvalid : ValidDatabaseName name
    · by_cases hbatch : ValidBatch clients
      · simp only [handleJoined, slotUse, hvalid, hbatch, not_true_eq_false, if_false, if_true]
        refine .guarded fun db => Prog.Asks.bind ?_ fun _ => trivial
        exact joinClients_asks schedule (runBenchmarkClient_harmless db _) clients
      · simp only [handleJoined, slotUse, hvalid, hbatch, not_true_eq_false, not_false_eq_true, if_false, if_true]
        exact .rejected _
    · simp only [handleJoined, slotUse, hvalid, not_false_eq_true, if_true]
      exact .rejected _
  | _ => exact handle_shape _

end SlatedbCloudflare.SlateDbObject

namespace SlatedbCloudflare.AppState
open Programs Locks ObjectStore Utf8 Instance Joins

def handleJoined (schedule : List ℕ) (req : Request) : RouteM (Answer Counters) :=
  match req.call with
  | .ok (.benchmarkBatch value clients) =>
    if ¬ ValidBatch clients then .err (.badRequest benchmarkMessage)
    else do
      let db ← database req.database
      free do
        let result ← joinClients schedule (runBenchmarkClient db (asBytes value)) clients
        pure (.batch result)
  | _ => handle req

theorem handleJoined_nil (req : Request) : handleJoined [] req = handle req := by
  obtain ⟨name,call⟩ := req
  rcases call with rejection | call
  · rfl
  cases call with
  | benchmarkBatch value clients =>
    simp only [handleJoined, handle, benchmarkBatch, joinClients_nil]
  | _ => rfl

theorem runBenchmarkClient_harmless (db : ℕ) (value : Bytes) (operations : List BenchmarkOperation) :
    (runBenchmarkClient db value operations).Asks Op.Harmless :=
  runOperations_asks (runBenchmarkOperation_harmless db value) operations _

theorem handleJoined_shape (schedule : List ℕ) (req : Request) :
    Shape twoNames openDatabase req.database (slotUse .replaces req) (handleJoined schedule req) := by
  obtain ⟨name,call⟩ := req
  rcases call with rejection | call
  · exact handle_shape _
  cases call with
  | benchmarkBatch value clients =>
    by_cases hbatch : ValidBatch clients
    · by_cases hvalid : ValidDatabaseName name
      · have hlookup : database name = withLock (currentOr twoNames openDatabase name) := by
          rw [database, validateDatabaseName, if_pos hvalid]
          rfl
        simp only [handleJoined, slotUse, hvalid, hbatch, hlookup, not_true_eq_false, if_false, if_true]
        refine .guarded fun db => Prog.Asks.bind ?_ fun _ => trivial
        exact joinClients_asks schedule (runBenchmarkClient_harmless db _) clients
      · have hlookup : database name = .err (.badRequest "invalid database name") := by
          rw [database, validateDatabaseName, if_neg hvalid]
          rfl
        simp only [handleJoined, slotUse, hvalid, hbatch, hlookup, not_true_eq_false, not_false_eq_true, if_false,
          if_true]
        exact .rejected _
    · by_cases hvalid : ValidDatabaseName name
      · simp only [handleJoined, slotUse, hvalid, hbatch, not_true_eq_false, not_false_eq_true, if_false, if_true]
        exact .rejected _
      · simp only [handleJoined, slotUse, hvalid, hbatch, not_false_eq_true, if_true]
        exact .rejected _
  | _ => exact handle_shape _

end SlatedbCloudflare.AppState
