import SlatedbCloudflare.Container.Instance
import SlatedbCloudflare.DurableObject.Instance

/-! # What a successful batch has done

Both services perform every operation of a batch before they answer, on the database
of that name, and count each of them as measurable or not.
-/
namespace SlatedbCloudflare.Instance
open Programs Locks ObjectStore Utf8

/-- Of `n` operations, each is unmeasurable or has a latency. -/
structure Measures (m : BenchmarkOperationMeasurements) (n : ℕ) : Prop where
  operations : m.operations = n
  counted : m.operations = m.unmeasurableOperations + m.measurableLatencyNs.length

theorem Measures.empty : Measures .empty 0 := ⟨rfl,rfl⟩

theorem Measures.merge {a b : BenchmarkOperationMeasurements} {m n : ℕ} (ha : Measures a m) (hb : Measures b n) :
    Measures (a.merge b) (m + n) := by
  obtain ⟨rfl,ha⟩ := ha
  obtain ⟨rfl,hb⟩ := hb
  refine ⟨rfl,?_⟩
  simp only [BenchmarkOperationMeasurements.merge, List.length_append]
  omega

theorem Measures.measured {m : BenchmarkOperationMeasurements} {n : ℕ} (h : Measures m n) (latencyNs : ℕ) :
    Measures { m with operations := m.operations + 1, measurableLatencyNs := m.measurableLatencyNs ++ [latencyNs] }
      (n + 1) := by
  obtain ⟨rfl,hcounted⟩ := h
  refine ⟨rfl,?_⟩
  simp only [List.length_append, List.length_singleton]
  omega

theorem Measures.unmeasured {m : BenchmarkOperationMeasurements} {n : ℕ} (h : Measures m n) :
    Measures { m with operations := m.operations + 1, unmeasurableOperations := m.unmeasurableOperations + 1 }
      (n + 1) := by
  obtain ⟨rfl,hcounted⟩ := h
  refine ⟨rfl,?_⟩
  simp only
  omega

theorem Measures.latencies_le {m : BenchmarkOperationMeasurements} {n : ℕ} (h : Measures m n) :
    m.measurableLatencyNs.length ≤ n := by
  obtain ⟨rfl,hcounted⟩ := h
  omega

def putsIn (operations : List BenchmarkOperation) : ℕ := operations.countP (fun o => o.operation = .put)

section Operations
variable {Own : Type} {Returned : Own → Type} {Out : Type}

/-- The database received the puts among the operations. -/
def Wrote (db : ℕ) (value : Bytes) (operations : List BenchmarkOperation)
    (tr : List ((r : Op Own) × Reply Returned r)) : Prop :=
  ∀ o ∈ operations, o.operation = .put →
    (⟨.put db (asBytes o.key) value false,.ok ()⟩ : (r : Op Own) × Reply Returned r) ∈ tr

/-- The operations were performed, and turned the measurements `m` into `m'`. -/
structure Batched (db : ℕ) (value : Bytes) (operations : List BenchmarkOperation)
    (tr : List ((r : Op Own) × Reply Returned r)) (m m' : BenchmarkBatchResponse) : Prop where
  wrote : Wrote db value operations tr
  measured : ∀ n, Measures m.put n → Measures m'.put (n + putsIn operations)

variable {db : ℕ} {value : Bytes} {tr tr' : List ((r : Op Own) × Reply Returned r)} {os : List Out}
  {m m₁ m' : BenchmarkBatchResponse}

theorem Batched.nil : Batched db value [] tr m m := ⟨by simp [Wrote],fun _ h => h⟩

theorem Batched.append {operations operations' : List BenchmarkOperation} (h : Batched db value operations tr m m₁)
    (h' : Batched db value operations' tr' m₁ m') :
    Batched db value (operations ++ operations') (tr ++ tr') m m' := by
  constructor
  · intro o ho hput
    rcases List.mem_append.mp ho with ho | ho
    · exact List.mem_append_left _ (h.wrote o ho hput)
    · exact List.mem_append_right _ (h'.wrote o ho hput)
  · intro n hn
    have hcount : putsIn (operations ++ operations') = putsIn operations + putsIn operations' :=
      List.countP_append
    rw [hcount, ← Nat.add_assoc]
    exact h'.measured _ (h.measured n hn)

theorem Batched.merge {operations : List BenchmarkOperation} (h : Batched db value operations tr .empty m') :
    Batched db value operations tr m (m.merge m') := by
  refine ⟨h.wrote,?_⟩
  intro n hn
  have hmeasured := h.measured 0 Measures.empty
  rw [Nat.zero_add] at hmeasured
  exact hn.merge hmeasured

theorem returns_orFail {α β : Type} {message : String → AppError} {x : Except String α}
    {f : α → OpM Returned Out β} {b : β} (h : Returns (orFail message x >>= f) tr os (.ok b)) :
    ∃ a, x = .ok a ∧ Returns (f a) tr os (.ok b) := by
  cases x with
  | ok a => exact ⟨a,rfl,h⟩
  | error e =>
    exact h.err_ne_ok.elim

section Puts
variable (message : String → AppError) (record : BenchmarkOperationMeasurements → ℕ → BenchmarkOperationMeasurements)

def timedPut (db : ℕ) (value : Bytes) (key : String) (m : BenchmarkBatchResponse) :
    OpM Returned Out BenchmarkBatchResponse := do
  let started : ℕ ← Prog.ask Op.now
  let written : Except String Unit ← Prog.ask (Op.put db (asBytes key) value false)
  orFail message written
  let now : ℕ ← Prog.ask Op.now
  pure { m with put := record m.put (elapsedNs started now) }

variable {message record}

theorem timedPut_batched (hrecord : ∀ {m n}, Measures m n → ∀ latencyNs, Measures (record m latencyNs) (n + 1))
    {key : String} (h : Returns (timedPut message record db value key m : OpM Returned Out _) tr os (.ok m')) :
    Batched db value [⟨.put,key⟩] tr m m' := by
  obtain ⟨started,tr₁,rfl,h₁⟩ := h.of_call
  obtain ⟨result,tr₂,rfl,h₂⟩ := h₁.of_call
  obtain ⟨⟨⟩,rfl,h₃⟩ := returns_orFail h₂
  obtain ⟨now,tr₃,rfl,h₄⟩ := h₃.of_call
  obtain ⟨rfl,_,hm⟩ := h₄.of_ok
  cases hm
  exact ⟨by simp [Wrote],fun _ hn => hrecord hn _⟩

/-- An operation is a timed put, or a timed get that leaves the measurements of the puts. -/
theorem operation_batched
    {run : BenchmarkOperation → BenchmarkBatchResponse → OpM Returned Out BenchmarkBatchResponse}
    {k : BenchmarkBatchResponse → ℕ → Except String (Option Bytes) → OpM Returned Out BenchmarkBatchResponse}
    (hget : ∀ key m, run ⟨.get,key⟩ m = .call .now fun started => .call (.get db (asBytes key)) (k m started))
    (hkeeps : ∀ m started x tr os m', Returns (k m started x) tr os (.ok m') → m'.put = m.put)
    (hput : ∀ key m, run ⟨.put,key⟩ m = timedPut message record db value key m)
    (hrecord : ∀ {m n}, Measures m n → ∀ latencyNs, Measures (record m latencyNs) (n + 1))
    {o : BenchmarkOperation} (h : Returns (run o m) tr os (.ok m')) : Batched db value [o] tr m m' := by
  obtain ⟨kind,key⟩ := o
  cases kind with
  | get =>
    rw [hget] at h
    obtain ⟨started,tr₁,rfl,h₁⟩ := h.of_call
    obtain ⟨x,tr₂,rfl,h₂⟩ := h₁.of_call
    have hkept := hkeeps m started x tr₂ os m' h₂
    refine ⟨by simp [Wrote],fun n hn => ?_⟩
    rw [hkept]
    exact hn
  | put =>
    rw [hput] at h
    exact timedPut_batched hrecord h

theorem timedPut_measurable (message : String → AppError)
    (record : BenchmarkOperationMeasurements → ℕ → BenchmarkOperationMeasurements) (db : ℕ) (value : Bytes)
    (key : String) (m : BenchmarkBatchResponse) :
    ∃ tr os, Returns (timedPut message record db value key m : OpM Returned Out _) tr os
      (.ok { m with put := record m.put 1 }) :=
  ⟨[⟨.now,0⟩,⟨.put db (asBytes key) value false,.ok ()⟩,⟨.now,1⟩],[],.call (.call (.call (.refl _)))⟩

end Puts

theorem runOperations_batched
    {run : BenchmarkOperation → BenchmarkBatchResponse → OpM Returned Out BenchmarkBatchResponse}
    (hrun : ∀ o m tr os m', Returns (run o m) tr os (.ok m') → Batched db value [o] tr m m')
    {operations : List BenchmarkOperation} (h : Returns (runOperations run operations m) tr os (.ok m')) :
    Batched db value operations tr m m' := by
  induction operations generalizing m tr os with
  | nil =>
    obtain ⟨rfl,_,hm⟩ := h.of_ok
    cases hm
    exact .nil
  | cons o rest ih =>
    obtain ⟨m₁,tr₁,tr₂,os₁,os₂,rfl,_,hfirst,hrest⟩ := h.of_bind_ok
    exact (hrun o m tr₁ os₁ m₁ hfirst).append (ih hrest)

theorem runOperations_measurable
    {f : BenchmarkOperation → BenchmarkBatchResponse → OpM Returned Out BenchmarkBatchResponse}
    (hrun : ∀ key m, ∃ tr os m', Returns (f ⟨.put,key⟩ m) tr os (.ok m') ∧
      m'.put.measurableLatencyNs.length = m.put.measurableLatencyNs.length + 1)
    {operations : List BenchmarkOperation} (hputs : ∀ o ∈ operations, o.operation = .put) (m : BenchmarkBatchResponse) :
    ∃ tr os m', Returns (runOperations f operations m) tr os (.ok m') ∧
      m'.put.measurableLatencyNs.length = m.put.measurableLatencyNs.length + operations.length := by
  induction operations generalizing m with
  | nil => exact ⟨[],[],m,.refl _,rfl⟩
  | cons o rest ih =>
    obtain ⟨kind,key⟩ := o
    obtain ⟨hkind,hrest⟩ := List.forall_mem_cons.mp hputs
    cases hkind
    obtain ⟨tr₁,os₁,m₁,hfirst,hone⟩ := hrun key m
    obtain ⟨tr₂,os₂,m₂,hothers,hall⟩ := ih hrest m₁
    refine ⟨_,_,m₂,hfirst.bind hothers,?_⟩
    rw [hall, hone, List.length_cons]
    omega

theorem runClients_measurable {client : List BenchmarkOperation → OpM Returned Out BenchmarkBatchResponse}
    (hclient : ∀ operations, (∀ o ∈ operations, o.operation = .put) → ∃ tr os m', Returns (client operations) tr os (.ok m') ∧
      m'.put.measurableLatencyNs.length = operations.length)
    {clients : List (List BenchmarkOperation)} (hputs : ∀ o ∈ clients.flatten, o.operation = .put)
    (m : BenchmarkBatchResponse) : ∃ tr os m', Returns (runClients client clients m) tr os (.ok m') ∧
      m'.put.measurableLatencyNs.length = m.put.measurableLatencyNs.length + clients.flatten.length := by
  induction clients generalizing m with
  | nil => exact ⟨[],[],m,.refl _,rfl⟩
  | cons operations rest ih =>
    obtain ⟨hown,hrest⟩ := List.forall_mem_append.mp hputs
    obtain ⟨tr₁,os₁,m₁,hfirst,hone⟩ := hclient operations hown
    obtain ⟨tr₂,os₂,m₂,hothers,hall⟩ := ih hrest (m.merge m₁)
    refine ⟨_,_,m₂,hfirst.bind hothers,?_⟩
    have hmerged : (m.merge m₁).put.measurableLatencyNs.length =
        m.put.measurableLatencyNs.length + m₁.put.measurableLatencyNs.length := List.length_append
    rw [hall, hmerged, hone, List.flatten_cons, List.length_append]
    omega

theorem runClients_batched {client : List BenchmarkOperation → OpM Returned Out BenchmarkBatchResponse}
    (hclient : ∀ operations tr os m', Returns (client operations) tr os (.ok m') →
      Batched db value operations tr .empty m')
    {clients : List (List BenchmarkOperation)} (h : Returns (runClients client clients m) tr os (.ok m')) :
    Batched db value clients.flatten tr m m' := by
  induction clients generalizing m tr os with
  | nil =>
    obtain ⟨rfl,_,hm⟩ := h.of_ok
    cases hm
    exact .nil
  | cons operations rest ih =>
    obtain ⟨m₁,tr₁,tr₂,os₁,os₂,rfl,_,hfirst,hrest⟩ := h.of_bind_ok
    exact (hclient operations tr₁ os₁ m₁ hfirst).merge.append (ih hrest)

/-- The trace tells that `db` is the database `name`: it was in the slot, or was built. -/
def Holds (name : String) (db : ℕ) (tr : List ((r : Op Own) × Reply Returned r)) : Prop :=
  (⟨.active,some ⟨name,db⟩⟩ : (r : Op Own) × Reply Returned r) ∈ tr ∨
    (⟨.build name,.ok db⟩ : (r : Op Own) × Reply Returned r) ∈ tr

theorem currentOr_holds {mixed : AppError} {openDb : String → OpM Returned Out ActiveDb} {name : String}
    (ho : ∀ tr os a, Returns (openDb name) tr os (.ok a) →
      (⟨.build name,.ok a.db⟩ : (r : Op Own) × Reply Returned r) ∈ tr)
    (h : Returns (currentOr mixed openDb name) tr os (.ok db)) : Holds name db tr := by
  obtain ⟨active,tr₁,rfl,hrest⟩ := h.of_call
  cases active with
  | some current =>
    change Returns (if current.name ≠ name then .err mixed else pure current.db) tr₁ os (.ok db) at hrest
    split_ifs at hrest with hname
    · exact hrest.err_ne_ok.elim
    · obtain ⟨rfl,_,hdb⟩ := hrest.of_ok
      cases hdb
      rw [not_not] at hname
      subst hname
      exact .inl (List.mem_singleton.mpr rfl)
  | none =>
    change Returns (install openDb name >>= fun opened => pure opened.db) tr₁ os (.ok db) at hrest
    obtain ⟨a,tr₂,tr₃,os₂,os₃,rfl,_,hinstall,hend⟩ := hrest.of_bind_ok
    obtain ⟨rfl,_,hdb⟩ := hend.of_ok
    cases hdb
    obtain ⟨a',tr₄,tr₅,os₄,os₅,rfl,_,hopen,hset⟩ := hinstall.of_bind_ok
    obtain ⟨_,_,rfl,hend⟩ := hset.of_call
    obtain ⟨rfl,_,ha⟩ := hend.of_ok
    cases ha
    have hbuild := ho tr₄ os₄ a hopen
    refine .inr (List.mem_cons_of_mem _ ?_)
    simp [hbuild]

end Operations

/-- The trace of a request tells that the database `name` took the value for the key. -/
def Received {Own : Type} {Returned : Own → Type} (tr : List ((r : Locked (Op Own)) × Locked.Reply (Reply Returned) r))
    (name key value : String) : Prop :=
  ∃ (tr' : List ((r : Op Own) × Reply Returned r)) (db : ℕ), (∀ x ∈ tr', acted x ∈ tr) ∧ Holds name db tr' ∧
    (⟨.put db (asBytes key) (asBytes value) false,.ok ()⟩ : (r : Op Own) × Reply Returned r) ∈ tr'

/-- A service that answers a batch when its operations are done. -/
def ServesBatches {Own : Type} {Returned : Own → Type} {Out Adapter : Type}
    (handle : Request → HandlerM Returned Out (Answer Adapter)) : Prop :=
  ∀ database value clients tr os response,
    Returns (handle ⟨database,.ok (.benchmarkBatch value clients)⟩) tr os (.ok (.batch response)) →
      Measures response.put (putsIn clients.flatten) ∧
        ∀ o ∈ clients.flatten, o.operation = .put → Received tr database o.key value

/-- A service that refuses other names than those of databases, and may find all puts of a
batch measurable. -/
structure MeasuresBatches {Own : Type} {Returned : Own → Type} {Out Adapter : Type}
    (handle : Request → HandlerM Returned Out (Answer Adapter)) : Prop where
  named : ∀ database value clients tr os response,
    Returns (handle ⟨database,.ok (.benchmarkBatch value clients)⟩) tr os (.ok (.batch response)) →
      ValidDatabaseName database
  measurable : ∀ database value clients, ValidDatabaseName database → ValidBatch clients →
    (∀ o ∈ clients.flatten, o.operation = .put) → ∃ tr os response,
      Returns (handle ⟨database,.ok (.benchmarkBatch value clients)⟩) tr os (.ok (.batch response)) ∧
        response.put.measurableLatencyNs.length = clients.flatten.length

section Services
variable {Own : Type} {Returned : Own → Type} {Out Adapter : Type} {mixed : AppError}
  {openDb : String → OpM Returned Out ActiveDb} {name value : String} {clients : List (List BenchmarkOperation)}
  {tr : List ((r : Locked (Op Own)) × Locked.Reply (Reply Returned) r)} {os : List Out}
  {response : BenchmarkBatchResponse}

theorem batch_served (client : ℕ → List BenchmarkOperation → OpM Returned Out BenchmarkBatchResponse)
    (ho : ∀ tr os a, Returns (openDb name) tr os (.ok a) →
      (⟨.build name,.ok a.db⟩ : (r : Op Own) × Reply Returned r) ∈ tr)
    (hclient : ∀ db operations tr os m', Returns (client db operations) tr os (.ok m') →
      Batched db (asBytes value) operations tr .empty m')
    (h : Returns (do
      let db ← withLock (currentOr mixed openDb name)
      free do
        let result ← runClients (client db) clients .empty
        pure (.batch result : Answer Adapter)) tr os (.ok (.batch response))) :
    Measures response.put (putsIn clients.flatten) ∧
      ∀ o ∈ clients.flatten, o.operation = .put → Received tr name o.key value := by
  obtain ⟨db,tr₁,tr₂,os₁,os₂,rfl,_,hlookup,hrun⟩ := h.of_bind_ok
  obtain ⟨tr₁',rfl,hcurrent⟩ := returns_withLock hlookup
  obtain ⟨tr₂',rfl,hclients⟩ := returns_free hrun
  obtain ⟨m,tr₃,tr₄,os₃,os₄,rfl,_,hbatch,hend⟩ := hclients.of_bind_ok
  obtain ⟨rfl,_,hm⟩ := hend.of_ok
  cases hm
  have hbatched := runClients_batched (hclient db) hbatch
  have hmeasured := hbatched.measured 0 Measures.empty
  rw [Nat.zero_add] at hmeasured
  have hkept : ∀ x ∈ tr₁' ++ tr₃, acted x ∈ (⟨.lock,()⟩ :: (tr₁'.map acted ++ [⟨.unlock,()⟩])) ++
      (tr₃ ++ []).map acted := by
    intro x hx
    rcases List.mem_append.mp hx with hx | hx <;> simp [List.mem_map_of_mem hx]
  have hholds : Holds name db (tr₁' ++ tr₃) := by
    rcases currentOr_holds ho hcurrent with hx | hx
    · exact .inl (List.mem_append_left _ hx)
    · exact .inr (List.mem_append_left _ hx)
  refine ⟨hmeasured,?_⟩
  intro o ho hput
  exact ⟨tr₁' ++ tr₃,db,hkept,hholds,List.mem_append_right _ (hbatched.wrote o ho hput)⟩

theorem batch_measurable (client : ℕ → List BenchmarkOperation → OpM Returned Out BenchmarkBatchResponse)
    (hclient : ∀ operations, (∀ o ∈ operations, o.operation = .put) → ∃ tr os m',
      Returns (client 0 operations) tr os (.ok m') ∧ m'.put.measurableLatencyNs.length = operations.length)
    (mixed : AppError) (openDb : String → OpM Returned Out ActiveDb) (name : String)
    (hputs : ∀ o ∈ clients.flatten, o.operation = .put) : ∃ tr os response, Returns (do
      let db ← withLock (currentOr mixed openDb name)
      free do
        let result ← runClients (client db) clients .empty
        pure (.batch result : Answer Adapter)) tr os (.ok (.batch response)) ∧
      response.put.measurableLatencyNs.length = clients.flatten.length := by
  obtain ⟨tr,os,m,hrun,hlatencies⟩ := runClients_measurable hclient hputs .empty
  have hopen : Returns (currentOr mixed openDb name) [⟨.active,some ⟨name,0⟩⟩] [] (.ok 0) := by
    refine .call ?_
    change Consumes (if name ≠ name then _ else _) _ _ _
    rw [if_neg (not_not.mpr rfl)]
    exact .refl _
  have hbatch : Returns (runClients (client 0) clients .empty >>= fun result => pure (.batch result : Answer Adapter))
      tr os (.ok (.batch m)) := hrun.bind_result rfl
  exact ⟨_,_,m,(withLock_returns hopen).bind (free_returns hbatch),by rw [hlatencies]; exact Nat.zero_add _⟩

end Services

end SlatedbCloudflare.Instance

namespace SlatedbCloudflare.SlateDbObject
open Programs Locks ObjectStore Utf8 Instance DoCache Perf

variable {L : LocalCacheHead}

theorem openDb_built {name : String} {tr : List ((r : Op (Own L)) × Reply Returned r)} {os : List Increment}
    {a : ActiveDb} (h : Returns (openDb name) tr os (.ok a)) :
    (⟨.build name,.ok a.db⟩ : (r : Op (Own L)) × Reply Returned r) ∈ tr := by
  obtain ⟨cached,tr₁,rfl,h₁⟩ := h.of_call
  obtain ⟨_,rfl,h₂⟩ := returns_orFail h₁
  obtain ⟨built,tr₂,rfl,h₃⟩ := h₂.of_call
  obtain ⟨db,rfl,h₄⟩ := returns_orFail h₃
  obtain ⟨rfl,_,ha⟩ := h₄.of_ok
  cases ha
  simp

theorem measures_record {m : BenchmarkOperationMeasurements} {n : ℕ} (h : Measures m n) (latencyNs : ℕ) :
    Measures (record m latencyNs) (n + 1) := by
  unfold record
  split_ifs
  · exact h.unmeasured
  · exact h.measured latencyNs

/-- What is left of a get after its reply. -/
def afterGet (m : BenchmarkBatchResponse) (started : ℕ) (x : Except String (Option Bytes)) :
    ObjectM L BenchmarkBatchResponse := do
  let found ← orFail slatedbError x
  let now : ℕ ← Prog.ask Op.now
  match found with
  | none => .err (.internal "benchmark key not found")
  | some _ => pure { m with get := record m.get (elapsedNs started now) }

theorem runBenchmarkOperation_get (db : ℕ) (value : Bytes) (key : String) (m : BenchmarkBatchResponse) :
    runBenchmarkOperation (L := L) db value ⟨.get,key⟩ m =
      .call .now fun started => .call (.get db (asBytes key)) (afterGet m started) := rfl

theorem runBenchmarkOperation_put (db : ℕ) (value : Bytes) (key : String) (m : BenchmarkBatchResponse) :
    runBenchmarkOperation (L := L) db value ⟨.put,key⟩ m = timedPut slatedbError record db value key m := rfl

theorem runBenchmarkOperation_batched {db : ℕ} {value : Bytes} {o : BenchmarkOperation}
    {m m' : BenchmarkBatchResponse} {tr : List ((r : Op (Own L)) × Reply Returned r)} {os : List Increment}
    (h : Returns (runBenchmarkOperation db value o m) tr os (.ok m')) : Batched db value [o] tr m m' := by
  refine operation_batched (runBenchmarkOperation_get db value) ?_ (runBenchmarkOperation_put db value) measures_record h
  intro m started x tr os m' hrest
  obtain ⟨found,rfl,hfound⟩ := returns_orFail hrest
  obtain ⟨now,_,_,hend⟩ := hfound.of_call
  cases found with
  | none => exact hend.err_ne_ok.elim
  | some _ =>
    obtain ⟨_,_,hm⟩ := hend.of_ok
    cases hm
    rfl

theorem serves_batches : ServesBatches (handle (L := L)) := by
  intro database value clients tr os response h
  unfold handle at h
  split_ifs at h
  · change Returns (if ¬ ValidBatch clients then _ else _) tr os _ at h
    split_ifs at h
    · refine batch_served (fun db => runBenchmarkClient db (asBytes value)) ?_ ?_ h
      · exact fun _ _ _ hopen => openDb_built hopen
      · intro db operations tr os m' hclient
        apply runOperations_batched _ hclient
        exact fun _ _ _ _ _ hrun => runBenchmarkOperation_batched hrun
    · exact h.err_ne_ok.elim
  · exact h.err_ne_ok.elim

theorem measures_batches : MeasuresBatches (handle (L := L)) where
  named database value clients tr os response h := by
    unfold handle at h
    split_ifs at h with hname
    · exact hname
    · exact h.err_ne_ok.elim
  measurable database value clients hname hbatch hputs := by
    have hhandle : handle (L := L) ⟨database,.ok (.benchmarkBatch value clients)⟩ = (do
        let db ← withLock (currentOr twoNames openDb database)
        free do
          let measurements ← runClients (runBenchmarkClient db (asBytes value)) clients .empty
          pure (.batch measurements)) := by
      unfold handle
      rw [if_neg (not_not.mpr hname)]
      change (if ¬ ValidBatch clients then _ else _) = _
      rw [if_neg (not_not.mpr hbatch)]
      rfl
    rw [hhandle]
    refine batch_measurable (fun db => runBenchmarkClient db (asBytes value)) ?_ _ _ _ hputs
    intro operations hoperations
    have hrun := runOperations_measurable (f := runBenchmarkOperation (L := L) 0 (asBytes value)) ?_ hoperations .empty
    · obtain ⟨tr,os,m,hreturns,hlatencies⟩ := hrun
      exact ⟨tr,os,m,hreturns,hlatencies.trans (Nat.zero_add _)⟩
    · intro key m
      obtain ⟨tr,os,hput⟩ := timedPut_measurable slatedbError record 0 (asBytes value) key m
      refine ⟨tr,os,_,hput,?_⟩
      rw [record, if_neg Nat.one_ne_zero, List.length_append, List.length_singleton]

end SlatedbCloudflare.SlateDbObject

namespace SlatedbCloudflare.AppState
open Programs Locks ObjectStore Utf8 Instance

theorem openDatabase_built {name : String} {tr : List ((r : Op Own) × Reply Returned r)} {os : List Empty}
    {a : ActiveDb} (h : Returns (openDatabase name) tr os (.ok a)) :
    (⟨.build name,.ok a.db⟩ : (r : Op Own) × Reply Returned r) ∈ tr := by
  obtain ⟨created,tr₁,rfl,h₁⟩ := h.of_call
  obtain ⟨_,rfl,h₂⟩ := returns_orFail h₁
  obtain ⟨built,tr₂,rfl,h₃⟩ := h₂.of_call
  obtain ⟨db,rfl,h₄⟩ := returns_orFail h₃
  obtain ⟨rfl,_,ha⟩ := h₄.of_ok
  cases ha
  simp

theorem measures_record {m : BenchmarkOperationMeasurements} {n : ℕ} (h : Measures m n) (latencyNs : ℕ) :
    Measures (record m latencyNs) (n + 1) := h.measured latencyNs

def afterGet (m : BenchmarkBatchResponse) (started : ℕ) (x : Except String (Option Bytes)) :
    ProcessM BenchmarkBatchResponse := do
  let found ← orFail .internal x
  match found with
  | none => .err (.internal "benchmark key not found")
  | some _ => do
    let now : ℕ ← Prog.ask Op.now
    pure { m with get := record m.get (elapsedNs started now) }

theorem runBenchmarkOperation_get (db : ℕ) (value : Bytes) (key : String) (m : BenchmarkBatchResponse) :
    runBenchmarkOperation db value ⟨.get,key⟩ m =
      .call .now fun started => .call (.get db (asBytes key)) (afterGet m started) := rfl

theorem runBenchmarkOperation_put (db : ℕ) (value : Bytes) (key : String) (m : BenchmarkBatchResponse) :
    runBenchmarkOperation db value ⟨.put,key⟩ m = timedPut .internal record db value key m := rfl

theorem runBenchmarkOperation_batched {db : ℕ} {value : Bytes} {o : BenchmarkOperation}
    {m m' : BenchmarkBatchResponse} {tr : List ((r : Op Own) × Reply Returned r)} {os : List Empty}
    (h : Returns (runBenchmarkOperation db value o m) tr os (.ok m')) : Batched db value [o] tr m m' := by
  refine operation_batched (runBenchmarkOperation_get db value) ?_ (runBenchmarkOperation_put db value) measures_record h
  intro m started x tr os m' hrest
  obtain ⟨found,rfl,hfound⟩ := returns_orFail hrest
  cases found with
  | none => exact hfound.err_ne_ok.elim
  | some _ =>
    obtain ⟨now,_,_,hend⟩ := hfound.of_call
    obtain ⟨_,_,hm⟩ := hend.of_ok
    cases hm
    rfl

theorem serves_batches : ServesBatches handle := by
  intro database value clients tr os response h
  change Returns (if ¬ ValidBatch clients then _ else _) tr os _ at h
  split_ifs at h
  · by_cases hname : ValidDatabaseName database
    · have hlookup : AppState.database database = withLock (currentOr twoNames openDatabase database) := by
        rw [AppState.database, validateDatabaseName, if_pos hname]
        rfl
      rw [hlookup] at h
      refine batch_served (fun db => runBenchmarkClient db (asBytes value)) ?_ ?_ h
      · exact fun _ _ _ hopen => openDatabase_built hopen
      · intro db operations tr os m' hclient
        apply runOperations_batched _ hclient
        exact fun _ _ _ _ _ hrun => runBenchmarkOperation_batched hrun
    · have hlookup : AppState.database database = .err (.badRequest "invalid database name") := by
        rw [AppState.database, validateDatabaseName, if_neg hname]
        rfl
      rw [hlookup] at h
      exact h.err_ne_ok.elim
  · exact h.err_ne_ok.elim

theorem database_named {name : String} {tr : List ((r : Locked (Op Own)) × Locked.Reply (Reply Returned) r)}
    {os : List Empty} {α : Type} {f : ℕ → RouteM α} {a : α} (h : Returns (AppState.database name >>= f) tr os (.ok a)) :
    ValidDatabaseName name := by
  by_contra hname
  rw [AppState.database, validateDatabaseName, if_neg hname] at h
  exact h.err_ne_ok.elim

theorem measures_batches : MeasuresBatches handle where
  named database value clients tr os response h := by
    change Returns (if ¬ ValidBatch clients then _ else _) tr os _ at h
    split_ifs at h
    · exact database_named h
    · exact h.err_ne_ok.elim
  measurable database value clients hname hbatch hputs := by
    have hhandle : handle ⟨database,.ok (.benchmarkBatch value clients)⟩ = (do
        let db ← withLock (currentOr twoNames openDatabase database)
        free do
          let result ← runClients (runBenchmarkClient db (asBytes value)) clients .empty
          pure (.batch result)) := by
      change benchmarkBatch database value clients = _
      rw [benchmarkBatch, if_neg (not_not.mpr hbatch), AppState.database, validateDatabaseName, if_pos hname]
      rfl
    rw [hhandle]
    refine batch_measurable (fun db => runBenchmarkClient db (asBytes value)) ?_ _ _ _ hputs
    intro operations hoperations
    have hrun := runOperations_measurable (f := runBenchmarkOperation 0 (asBytes value)) ?_ hoperations .empty
    · obtain ⟨tr,os,m,hreturns,hlatencies⟩ := hrun
      exact ⟨tr,os,m,hreturns,hlatencies.trans (Nat.zero_add _)⟩
    · intro key m
      obtain ⟨tr,os,hput⟩ := timedPut_measurable .internal record 0 (asBytes value) key m
      refine ⟨tr,os,_,hput,?_⟩
      rw [record, List.length_append, List.length_singleton]

end SlatedbCloudflare.AppState
