import SlatedbCloudflare.Instance.OneStore

/-! # What a batch reports

In whatever order the clients of a batch are polled, the answer reports each operation
once, with the time between its own two readings of the clock, and the clients in their
order.
-/
namespace SlatedbCloudflare.Instance
open Programs Locks ObjectStore Utf8 Joins

structure Timing where
  kind : BenchmarkOperationKind
  latencyNs : ℕ

section Reports
variable (measurable : ℕ → Bool)

/-- The measurements of the operations of one kind, of which some latencies cannot be measured. -/
def tally (kind : BenchmarkOperationKind) (timings : List Timing) : BenchmarkOperationMeasurements :=
  let latencies := (timings.filter fun t => t.kind = kind).map Timing.latencyNs
  ⟨latencies.length,latencies.countP (!measurable ·),latencies.filter measurable⟩

def report (timings : List Timing) : BenchmarkBatchResponse := ⟨tally measurable .get timings,tally measurable .put timings⟩

theorem tally_append (kind : BenchmarkOperationKind) (timings timings' : List Timing) :
    tally measurable kind (timings ++ timings') = (tally measurable kind timings).merge (tally measurable kind timings') := by
  simp [tally, BenchmarkOperationMeasurements.merge]

theorem report_append (timings timings' : List Timing) :
    report measurable (timings ++ timings') = (report measurable timings).merge (report measurable timings') := by
  rw [report, tally_append, tally_append]
  rfl

theorem merge_empty (m : BenchmarkBatchResponse) : m.merge .empty = m := by
  simp [BenchmarkBatchResponse.merge, BenchmarkBatchResponse.empty, BenchmarkOperationMeasurements.merge,
    BenchmarkOperationMeasurements.empty]

theorem merge_assoc (m m' m'' : BenchmarkBatchResponse) : (m.merge m').merge m'' = m.merge (m'.merge m'') := by
  simp [BenchmarkBatchResponse.merge, BenchmarkOperationMeasurements.merge, Nat.add_assoc]

theorem empty_merge (m : BenchmarkBatchResponse) : BenchmarkBatchResponse.empty.merge m = m := by
  simp [BenchmarkBatchResponse.merge, BenchmarkBatchResponse.empty, BenchmarkOperationMeasurements.merge,
    BenchmarkOperationMeasurements.empty]

def single (latencyNs : ℕ) : BenchmarkOperationMeasurements :=
  if measurable latencyNs then ⟨1,0,[latencyNs]⟩ else ⟨1,1,[]⟩

theorem merge_report_get (m : BenchmarkBatchResponse) (latencyNs : ℕ) :
    m.merge (report measurable [⟨.get,latencyNs⟩]) = { m with get := m.get.merge (single measurable latencyNs) } := by
  cases h : measurable latencyNs <;>
    simp [report, tally, single, h, BenchmarkBatchResponse.merge, BenchmarkOperationMeasurements.merge]

theorem merge_report_put (m : BenchmarkBatchResponse) (latencyNs : ℕ) :
    m.merge (report measurable [⟨.put,latencyNs⟩]) = { m with put := m.put.merge (single measurable latencyNs) } := by
  cases h : measurable latencyNs <;>
    simp [report, tally, single, h, BenchmarkBatchResponse.merge, BenchmarkOperationMeasurements.merge]

theorem mergeAll_report (timings : List (List Timing)) :
    mergeAll (timings.map (report measurable)) = report measurable timings.flatten := by
  have hfold : ∀ m, (timings.map (report measurable)).foldl BenchmarkBatchResponse.merge m =
      m.merge (report measurable timings.flatten) := by
    induction timings with
    | nil => exact fun m => (merge_empty m).symm
    | cons first rest ih =>
      intro m
      rw [List.map_cons, List.foldl_cons, ih, List.flatten_cons, report_append, merge_assoc]
  exact (hfold .empty).trans (empty_merge _)

end Reports

section Batches
variable {Own : Type} {Returned : Own → Type} {Out Adapter : Type} {measurable : ℕ → Bool} {db : ℕ} {value : Bytes}

inductive Timed (db : ℕ) (value : Bytes) : BenchmarkOperation → Timing → List ((r : Op Own) × Reply Returned r) → Prop
  | get (key : String) (bytes : Bytes) (started now : ℕ) : Timed db value ⟨.get,key⟩ ⟨.get,elapsedNs started now⟩
      [⟨.now,started⟩,⟨.get db (asBytes key),.ok (some bytes)⟩,⟨.now,now⟩]
  | put (key : String) (started now : ℕ) : Timed db value ⟨.put,key⟩ ⟨.put,elapsedNs started now⟩
      [⟨.now,started⟩,⟨.put db (asBytes key) value false,.ok ()⟩,⟨.now,now⟩]

inductive TimedAll (db : ℕ) (value : Bytes) :
    List BenchmarkOperation → List Timing → List ((r : Op Own) × Reply Returned r) → Prop
  | nil : TimedAll db value [] [] []
  | cons {o : BenchmarkOperation} {t : Timing} {tr tr' : List ((r : Op Own) × Reply Returned r)}
      {operations : List BenchmarkOperation} {timings : List Timing} (h : Timed db value o t tr)
      (hrest : TimedAll db value operations timings tr') : TimedAll db value (o :: operations) (t :: timings) (tr ++ tr')

/-- The operation adds its own timing to the measurements. -/
def TimesOne (measurable : ℕ → Bool) (db : ℕ) (value : Bytes)
    (run : BenchmarkOperation → BenchmarkBatchResponse → OpM Returned Out BenchmarkBatchResponse) : Prop :=
  ∀ o (m : BenchmarkBatchResponse) tr os m', Returns (run o m) tr os (.ok m') →
    ∃ t, Timed db value o t tr ∧ m' = m.merge (report measurable [t])

variable {run : BenchmarkOperation → BenchmarkBatchResponse → OpM Returned Out BenchmarkBatchResponse}
  {tr : List ((r : Op Own) × Reply Returned r)} {os : List Out} {m m' : BenchmarkBatchResponse}

theorem runOperations_timed (hrun : TimesOne measurable db value run) {operations : List BenchmarkOperation}
    (h : Returns (runOperations run operations m) tr os (.ok m')) :
    ∃ timings, TimedAll db value operations timings tr ∧ m' = m.merge (report measurable timings) := by
  induction operations generalizing m tr os with
  | nil =>
    obtain ⟨rfl,_,hm⟩ := h.of_ok
    cases hm
    exact ⟨[],.nil,(merge_empty _).symm⟩
  | cons o rest ih =>
    obtain ⟨m₁,tr₁,tr₂,os₁,os₂,rfl,_,hfirst,hrest⟩ := h.of_bind_ok
    obtain ⟨t,htimed,rfl⟩ := hrun o m tr₁ os₁ m₁ hfirst
    obtain ⟨timings,hall,rfl⟩ := ih hrest
    refine ⟨t :: timings,.cons htimed hall,?_⟩
    rw [merge_assoc, ← report_append, List.singleton_append]

/-- The clients ran side by side, and their timings are reported in their order. -/
theorem joinClients_timed (hrun : TimesOne measurable db value run) {schedule : List ℕ}
    {clients : List (List BenchmarkOperation)}
    (h : Returns (joinClients schedule (fun operations => runOperations run operations .empty) clients) tr os (.ok m')) :
    ∃ (each : ℕ → List ((r : Op Own) × Reply Returned r)) (timings : ℕ → List Timing), Interleaves each tr ∧
      (∀ i, TimedAll db value (clients.getD i []) (timings i) (each i)) ∧
      m' = report measurable ((List.range clients.length).flatMap timings) := by
  obtain ⟨ms,tr₁,tr₂,os₁,os₂,rfl,_,hjoin,hend⟩ := h.of_bind_ok
  obtain ⟨rfl,_,hm⟩ := hend.of_ok
  cases hm
  obtain ⟨each,hinter,hjoined⟩ := returns_joinAll hjoin
  have hlength : ms.length = clients.length := by rw [hjoined.length, List.length_map]
  have hclient : ∀ i, ∃ timings, TimedAll db value (clients.getD i []) timings (each i) ∧
      ∀ m, ms[i]? = some m → m = report measurable timings := by
    intro i
    rw [List.getD_eq_getElem?_getD]
    cases hi : clients[i]? with
    | none =>
      have hnone := hjoined.returned.beyond (i := i) (by rw [List.getElem?_map, hi]; rfl)
      have hbeyond : ms[i]? = none := by
        rw [List.getElem?_eq_none_iff] at hi ⊢
        omega
      rw [hnone]
      exact ⟨[],.nil,by simp [hbeyond]⟩
    | some operations =>
      obtain ⟨os,m,hm,hreturns⟩ := hjoined.returned.at (i := i) (by rw [List.getElem?_map, hi]; rfl)
      obtain ⟨timings,htimed,rfl⟩ := runOperations_timed hrun hreturns
      refine ⟨timings,htimed,fun m hm' => ?_⟩
      rw [hm, Option.some.injEq] at hm'
      rw [← hm', empty_merge]
  choose timings htimed hms using hclient
  have hmap : ms = (List.range clients.length).map fun i => report measurable (timings i) := by
    apply List.ext_getElem
    · rw [hlength, List.length_map, List.length_range]
    · intro i hi _
      rw [hms i _ (List.getElem?_eq_getElem hi), List.getElem_map, List.getElem_range]
  refine ⟨each,timings,by rwa [List.append_nil],htimed,?_⟩
  have hreports : ms = ((List.range clients.length).map timings).map (report measurable) := by
    rw [hmap, List.map_map]
    rfl
  rw [hreports, mergeAll_report, List.flatMap_def]

/-- The clients of the batch ran side by side on the database of that name, and the answer
reports their timings. -/
def BatchMeasured (measurable : ℕ → Bool) (name value : String) (clients : List (List BenchmarkOperation))
    (tr : List ((r : Locked (Op Own)) × Locked.Reply (Reply Returned) r)) (a : Answer Adapter) : Prop :=
  ∃ (db : ℕ) (opened merged : List ((r : Op Own) × Reply Returned r))
    (each : ℕ → List ((r : Op Own) × Reply Returned r)) (timings : ℕ → List Timing),
    acts tr = opened ++ merged ∧ Holds name db opened ∧ Interleaves each merged ∧
    (∀ i, TimedAll db (asBytes value) (clients.getD i []) (timings i) (each i)) ∧
    a = .batch (report measurable ((List.range clients.length).flatMap timings))

theorem batch_measured {mixed : AppError} {openDb : String → OpM Returned Out ActiveDb} {name value : String}
    {run : ℕ → BenchmarkOperation → BenchmarkBatchResponse → OpM Returned Out BenchmarkBatchResponse}
    {schedule : List ℕ} {clients : List (List BenchmarkOperation)}
    {tr : List ((r : Locked (Op Own)) × Locked.Reply (Reply Returned) r)} {os : List Out} {a : Answer Adapter}
    (ho : ∀ tr os a, Returns (openDb name) tr os (.ok a) →
      (⟨.build name,.ok a.db⟩ : (r : Op Own) × Reply Returned r) ∈ tr)
    (hrun : ∀ db, TimesOne measurable db (asBytes value) (run db))
    (h : Returns (do
      let db ← withLock (currentOr mixed openDb name)
      free do
        let measurements ← joinClients schedule (fun operations => runOperations (run db) operations .empty) clients
        pure (.batch measurements)) tr os (.ok a)) : BatchMeasured measurable name value clients tr a := by
  obtain ⟨db,tr₁,tr₂,os₁,os₂,htr,hcurrent,hclients⟩ := returns_section h
  obtain ⟨m,tr₃,tr₄,os₃,os₄,rfl,_,hjoin,hend⟩ := hclients.of_bind_ok
  obtain ⟨rfl,_,ha⟩ := hend.of_ok
  cases ha
  obtain ⟨each,timings,hinter,htimed,rfl⟩ := joinClients_timed (hrun db) hjoin
  rw [List.append_nil] at htr
  exact ⟨db,tr₁,tr₃,each,timings,htr,currentOr_holds ho hcurrent,hinter,htimed,rfl⟩

end Batches

end SlatedbCloudflare.Instance

namespace SlatedbCloudflare.SlateDbObject
open Programs Locks ObjectStore Utf8 Instance Joins Perf

variable {L : DoCache.LocalCacheHead}

theorem record_merge (m : BenchmarkOperationMeasurements) (latencyNs : ℕ) :
    record m latencyNs = m.merge (single (· != 0) latencyNs) := by
  by_cases h : latencyNs = 0 <;> simp [record, single, BenchmarkOperationMeasurements.merge, h]

theorem runBenchmarkOperation_timed (db : ℕ) (value : Bytes) :
    TimesOne (· != 0) db value (runBenchmarkOperation (L := L) db value) := by
  intro o m tr os m' h
  obtain ⟨kind,key⟩ := o
  obtain ⟨started,tr₁,rfl,h₁⟩ := h.of_call
  cases kind with
  | get =>
    obtain ⟨result,tr₂,rfl,h₂⟩ := h₁.of_call
    obtain ⟨found,rfl,h₃⟩ := returns_orFail h₂
    obtain ⟨now,tr₃,rfl,h₄⟩ := h₃.of_call
    cases found with
    | none => exact h₄.err_ne_ok.elim
    | some bytes =>
      obtain ⟨rfl,_,hm⟩ := h₄.of_ok
      cases hm
      exact ⟨_,.get key bytes started now,by rw [record_merge, merge_report_get]⟩
  | put =>
    obtain ⟨result,tr₂,rfl,h₂⟩ := h₁.of_call
    obtain ⟨⟨⟩,rfl,h₃⟩ := returns_orFail h₂
    obtain ⟨now,tr₃,rfl,h₄⟩ := h₃.of_call
    obtain ⟨rfl,_,hm⟩ := h₄.of_ok
    cases hm
    exact ⟨_,.put key started now,by rw [record_merge, merge_report_put]⟩

theorem handleJoined_measured {schedule : List ℕ} {name value : String} {clients : List (List BenchmarkOperation)}
    {tr : List ((r : Locked (Op (Own L))) × Locked.Reply (Reply Returned) r)} {os : List Increment} {a : Answer PerfSnapshot}
    (h : Returns (handleJoined (L := L) schedule ⟨name,.ok (.benchmarkBatch value clients)⟩) tr os (.ok a)) :
    BatchMeasured (· != 0) name value clients tr a := by
  by_cases hname : ValidDatabaseName name
  · by_cases hbatch : ValidBatch clients
    · simp only [handleJoined, hname, hbatch, not_true_eq_false, if_false] at h
      exact batch_measured (fun _ _ _ hopen => openDb_built hopen) (fun db => runBenchmarkOperation_timed db _) h
    · simp only [handleJoined, hname, hbatch, not_true_eq_false, not_false_eq_true, if_false, if_true] at h
      exact h.err_ne_ok.elim
  · simp only [handleJoined, hname, not_false_eq_true, if_true] at h
    exact h.err_ne_ok.elim

end SlatedbCloudflare.SlateDbObject

namespace SlatedbCloudflare.AppState
open Programs Locks ObjectStore Utf8 Instance Joins

theorem record_merge (m : BenchmarkOperationMeasurements) (latencyNs : ℕ) :
    record m latencyNs = m.merge (single (fun _ => true) latencyNs) := rfl

theorem runBenchmarkOperation_timed (db : ℕ) (value : Bytes) :
    TimesOne (fun _ => true) db value (runBenchmarkOperation db value) := by
  intro o m tr os m' h
  obtain ⟨kind,key⟩ := o
  obtain ⟨started,tr₁,rfl,h₁⟩ := h.of_call
  cases kind with
  | get =>
    obtain ⟨result,tr₂,rfl,h₂⟩ := h₁.of_call
    obtain ⟨found,rfl,h₃⟩ := returns_orFail h₂
    cases found with
    | none => exact h₃.err_ne_ok.elim
    | some bytes =>
      obtain ⟨now,tr₃,rfl,h₄⟩ := h₃.of_call
      obtain ⟨rfl,_,hm⟩ := h₄.of_ok
      cases hm
      exact ⟨_,.get key bytes started now,by rw [record_merge, merge_report_get]⟩
  | put =>
    obtain ⟨result,tr₂,rfl,h₂⟩ := h₁.of_call
    obtain ⟨⟨⟩,rfl,h₃⟩ := returns_orFail h₂
    obtain ⟨now,tr₃,rfl,h₄⟩ := h₃.of_call
    obtain ⟨rfl,_,hm⟩ := h₄.of_ok
    cases hm
    exact ⟨_,.put key started now,by rw [record_merge, merge_report_put]⟩

theorem handleJoined_measured {schedule : List ℕ} {name value : String} {clients : List (List BenchmarkOperation)}
    {tr : List ((r : Locked (Op Own)) × Locked.Reply (Reply Returned) r)} {os : List Empty} {a : Answer Counters}
    (h : Returns (handleJoined schedule ⟨name,.ok (.benchmarkBatch value clients)⟩) tr os (.ok a)) :
    BatchMeasured (fun _ => true) name value clients tr a := by
  by_cases hbatch : ValidBatch clients
  · simp only [handleJoined, hbatch, not_true_eq_false, if_false] at h
    by_cases hname : ValidDatabaseName name
    · rw [database_valid hname] at h
      exact batch_measured (fun _ _ _ hopen => openDatabase_built hopen) (fun db => runBenchmarkOperation_timed db _) h
    · rw [database_invalid hname] at h
      exact h.err_ne_ok.elim
  · simp only [handleJoined, hbatch, not_false_eq_true, if_true] at h
    exact h.err_ne_ok.elim

end SlatedbCloudflare.AppState

namespace SlatedbCloudflare
open Programs Locks ObjectStore Utf8 Instance Joins

/-- In whatever order the clients of a batch are polled, its answer counts each operation
once, with the time between the readings of the clock around it. -/
theorem batches_measured (L : DoCache.LocalCacheHead) (schedule : List ℕ) (name value : String)
    (clients : List (List BenchmarkOperation)) :
    (∀ tr os a, Returns (SlateDbObject.handleJoined (L := L) schedule ⟨name,.ok (.benchmarkBatch value clients)⟩) tr os
      (.ok a) → BatchMeasured (· != 0) name value clients tr a) ∧
    (∀ tr os a, Returns (AppState.handleJoined schedule ⟨name,.ok (.benchmarkBatch value clients)⟩) tr os (.ok a) →
      BatchMeasured (fun _ => true) name value clients tr a) :=
  ⟨fun _ _ _ h => SlateDbObject.handleJoined_measured h,fun _ _ _ h => AppState.handleJoined_measured h⟩

section Witnesses
variable {Own : Type} {Returned : Own → Type}

def twoClients : List (List BenchmarkOperation) := [[⟨.put,"first"⟩],[⟨.get,"second"⟩]]

/-- The replies to them if the second is polled before the first one. -/
def polled (own : Own) (x : Returned own) : List ((r : Locked (Op Own)) × Locked.Reply (Reply Returned) r) :=
  [⟨.lock,()⟩,⟨.act .active,none⟩,⟨.act (.own own),x⟩,⟨.act (.build "tenant"),.ok 0⟩,
    ⟨.act (.setActive ⟨"tenant",0⟩),()⟩,⟨.unlock,()⟩,⟨.act .now,5⟩,⟨.act .now,6⟩,
    ⟨.act (.put 0 (asBytes "first") (asBytes "value") false),.ok ()⟩,⟨.act .now,8⟩,
    ⟨.act (.get 0 (asBytes "second")),.ok (some [])⟩,⟨.act .now,9⟩]

end Witnesses

/-- Two clients whose operations interleave are measured apart. -/
theorem batches_measured_polled :
    (∃ tr os, Returns (SlateDbObject.handleJoined (L := DoCache.LocalCacheHead.plain) [1]
        ⟨"tenant",.ok (.benchmarkBatch "value" twoClients)⟩) tr os (.ok (.batch ⟨⟨1,0,[4]⟩,⟨1,0,[2]⟩⟩)) ∧
      BatchMeasured (· != 0) "tenant" "value" twoClients tr
        (.batch ⟨⟨1,0,[4]⟩,⟨1,0,[2]⟩⟩ : Answer SlateDbObject.PerfSnapshot)) ∧
    (∃ tr os, Returns (AppState.handleJoined [1] ⟨"tenant",.ok (.benchmarkBatch "value" twoClients)⟩) tr os
        (.ok (.batch ⟨⟨1,0,[4]⟩,⟨1,0,[2]⟩⟩)) ∧
      BatchMeasured (fun _ => true) "tenant" "value" twoClients tr
        (.batch ⟨⟨1,0,[4]⟩,⟨1,0,[2]⟩⟩ : Answer AppState.Counters)) := by
  obtain ⟨hobject,hprocess⟩ := batches_measured DoCache.LocalCacheHead.plain [1] "tenant" "value" twoClients
  constructor
  · have hpolled : Returns (SlateDbObject.handleJoined (L := DoCache.LocalCacheHead.plain) [1]
        ⟨"tenant",.ok (.benchmarkBatch "value" twoClients)⟩) (polled (.fromStorage "tenant") (.ok ())) []
        (.ok (.batch ⟨⟨1,0,[4]⟩,⟨1,0,[2]⟩⟩)) :=
      .call (.call (.call (.call (.call (.call (.call (.call (.call (.call (.call (.call (.refl _))))))))))))
    exact ⟨_,_,hpolled,hobject _ _ _ hpolled⟩
  · have hpolled : Returns (AppState.handleJoined [1] ⟨"tenant",.ok (.benchmarkBatch "value" twoClients)⟩)
        (polled (.createDirAll (AppState.cacheDir "tenant")) (.ok ())) []
        (.ok (.batch ⟨⟨1,0,[4]⟩,⟨1,0,[2]⟩⟩)) :=
      .call (.call (.call (.call (.call (.call (.call (.call (.call (.call (.call (.call (.refl _))))))))))))
    exact ⟨_,_,hpolled,hprocess _ _ _ hpolled⟩

end SlatedbCloudflare
