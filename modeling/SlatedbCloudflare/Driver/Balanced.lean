import SlatedbCloudflare.Driver.Rounds

/-! # What the balanced profile measures

Each answered batch reports its operations once, so the merged measurements of a run
count what its rounds have sent.
-/
namespace SlatedbCloudflare.Instance
open ObjectStore Utf8

def getsIn (operations : List BenchmarkOperation) : ℕ := operations.countP (fun o => o.operation = .get)

/-- The measurements count the operations, the gets apart from the puts. -/
structure Counts (m : BenchmarkBatchResponse) (operations : List BenchmarkOperation) : Prop where
  get : Measures m.get (getsIn operations)
  put : Measures m.put (putsIn operations)

theorem counts_empty : Counts .empty [] := ⟨.empty,.empty⟩

theorem Counts.merge {m m' : BenchmarkBatchResponse} {operations operations' : List BenchmarkOperation}
    (h : Counts m operations) (h' : Counts m' operations') :
    Counts (m.merge m') (operations ++ operations') := by
  constructor
  · rw [getsIn, List.countP_append]
    exact h.get.merge h'.get
  · rw [putsIn, List.countP_append]
    exact h.put.merge h'.put

theorem Counts.total {m : BenchmarkBatchResponse} {operations : List BenchmarkOperation} (h : Counts m operations) :
    m.get.operations + m.put.operations = operations.length := by
  have hkinds : getsIn operations + putsIn operations = operations.length := by
    have hsplit := List.length_eq_countP_add_countP (l := operations) (fun o => decide (o.operation = .get))
    have hother : ∀ o ∈ operations, (decide ¬ decide (o.operation = .get) = true) = decide (o.operation = .put) := by
      intro o _
      cases o.operation <;> rfl
    rw [hsplit, getsIn, putsIn]
    congr 1
    exact (List.countP_congr fun o ho => by rw [hother o ho]).symm
  rw [h.get.operations, h.put.operations, hkinds]

section Reports
variable {Own : Type} {Returned : Own → Type} {Out Adapter : Type} {measurable : ℕ → Bool}

theorem measures_tally (kind : BenchmarkOperationKind) (timings : List Timing) :
    Measures (tally measurable kind timings) (timings.countP fun t => t.kind = kind) := by
  constructor
  · simp only [tally, List.length_map, List.countP_eq_length_filter]
  · rw [tally]
    have hsplit := List.length_eq_countP_add_countP (l := (timings.filter fun t => t.kind = kind).map Timing.latencyNs)
      measurable
    simp only [← List.countP_eq_length_filter]
    rw [hsplit, Nat.add_comm]
    congr 1
    apply List.countP_congr
    intro t _
    cases measurable t <;> simp

theorem TimedAll.kinds {db : ℕ} {value : Bytes} {operations : List BenchmarkOperation} {timings : List Timing}
    {tr : List ((r : Op Own) × Reply Returned r)} (h : TimedAll db value operations timings tr) :
    timings.map Timing.kind = operations.map BenchmarkOperation.operation := by
  induction h with
  | nil => rfl
  | cons h _ ih =>
    rw [List.map_cons, List.map_cons, ih]
    cases h <;> rfl

theorem BatchMeasured.counts {name value : String} {clients : List (List BenchmarkOperation)}
    {tr : List ((r : Locks.Locked (Op Own)) × Locks.Locked.Reply (Reply Returned) r)} {response : BenchmarkBatchResponse}
    (h : BatchMeasured measurable name value clients tr (.batch response : Answer Adapter)) :
    Counts response clients.flatten := by
  obtain ⟨_,_,_,each,timings,_,_,_,htimed,hresponse⟩ := h
  cases hresponse
  have hclients : clients.flatten = (List.range clients.length).flatMap fun i => clients.getD i [] := by
    have hmap : clients = (List.range clients.length).map fun i => clients.getD i [] := by
      apply List.ext_getElem
      · rw [List.length_map, List.length_range]
      · intro i hi _
        rw [List.getElem_map, List.getElem_range, List.getD_eq_getElem?_getD, List.getElem?_eq_getElem hi, Option.getD_some]
    rw [List.flatMap_def, ← hmap]
  have hkinds : ((List.range clients.length).flatMap timings).map Timing.kind =
      clients.flatten.map BenchmarkOperation.operation := by
    rw [hclients, List.map_flatMap, List.map_flatMap]
    exact List.flatMap_congr fun i _ => (htimed i).kinds
  have hcount : ∀ kind, ((List.range clients.length).flatMap timings).countP (fun t => t.kind = kind) =
      clients.flatten.countP fun o => o.operation = kind := by
    intro kind
    have hcounts := congrArg (List.countP fun k => decide (k = kind)) hkinds
    rwa [List.countP_map, List.countP_map] at hcounts
  constructor
  · rw [getsIn, ← hcount]
    exact measures_tally .get _
  · rw [putsIn, ← hcount]
    exact measures_tally .put _

end Reports

end SlatedbCloudflare.Instance

namespace SlatedbCloudflare.Benchmark
open Programs Tasks Fuel Instance

section Services
variable {Own : Type} {Returned : Own → Type} {Out Adapter : Type}

/-- The service may answer the batch so, its clients polled in some order. -/
def Answered (handle : List ℕ → Request → HandlerM Returned Out (Answer Adapter)) (r : BatchRequest)
    (response : BenchmarkBatchResponse) : Prop :=
  ∃ schedule tr os, Returns (handle schedule ⟨r.database,.ok (.benchmarkBatch r.value r.clients)⟩) tr os
    (.ok (.batch response))

/-- The responses to a round are those to its batches, in their order. -/
def Settled (handle : List ℕ → Request → HandlerM Returned Out (Answer Adapter)) :
    (r : DriverCall) × DriverReply r → Prop
  | ⟨.batches requests,.ok responses⟩ => List.Forall₂ (Answered handle) requests responses
  | ⟨.batches _,.error _⟩ => True
  | ⟨.now,_⟩ => True

def operationsOf (requests : List BatchRequest) : List BenchmarkOperation :=
  requests.flatMap fun r => r.clients.flatten

/-- Whatever a service answers to a batch counts its operations. -/
def CountsBatches (handle : List ℕ → Request → HandlerM Returned Out (Answer Adapter)) : Prop :=
  ∀ r response, Answered handle r response → Counts response r.clients.flatten

variable {handle : List ℕ → Request → HandlerM Returned Out (Answer Adapter)} {m : BenchmarkBatchResponse}

theorem mergeResponses_counts (hcounts : CountsBatches handle) {requests : List BatchRequest}
    {responses : List BenchmarkBatchResponse} (h : List.Forall₂ (Answered handle) requests responses)
    {operations : List BenchmarkOperation} (hm : Counts m operations) {spread : ℕ} {m' : BenchmarkBatchResponse}
    (hmerged : mergeResponses spread m responses = .ok m') : Counts m' (operations ++ operationsOf requests) := by
  induction h generalizing m operations with
  | nil =>
    cases hmerged
    rwa [operationsOf, List.flatMap_nil, List.append_nil]
  | @cons r response requests responses hr _ ih =>
    have hfirst := hm.merge (hcounts r response hr)
    rw [operationsOf, List.flatMap_cons, ← List.append_assoc]
    exact ih hfirst (mergeResponses_cons hmerged)

end Services

namespace BalancedConfig
variable {R : Type} [LinearOrder R] {config : BalancedConfig} {D : Doubles R} {Own : Type} {Returned : Own → Type}
  {Out Adapter : Type} {handle : List ℕ → Request → HandlerM Returned Out (Answer Adapter)}

theorem runRounds_counts (hcounts : CountsBatches handle) {spread deadline bound k : ℕ}
    {m m' : BenchmarkBatchResponse} {tr : List ((r : DriverCall) × DriverReply r)} {os : List Empty}
    (h : Returns (config.runRounds D spread deadline bound (config.statesAt k) m) tr os (.ok m'))
    (hsettled : ∀ x ∈ tr, Settled handle x) {operations : List BenchmarkOperation} (hm : Counts m operations) :
    Counts m' (operations ++ (sentRounds (tr.map Sigma.fst)).flatMap operationsOf) := by
  induction bound generalizing k m tr os operations with
  | zero => exact h.err_ne_ok.elim
  | succ bound ih =>
    rw [runRounds_turn] at h
    obtain ⟨now,tr₁,rfl,h₁⟩ := h.of_call
    by_cases hnow : now < deadline
    · simp only [if_pos hnow] at h₁
      obtain ⟨replies,tr₂,rfl,h₂⟩ := h₁.of_call
      cases replies with
      | error e => exact h₂.err_ne_ok.elim
      | ok responses =>
        have hround : List.Forall₂ (Answered handle) (config.round D k) responses :=
          hsettled _ (List.mem_cons_of_mem _ List.mem_cons_self)
        change Returns (Prog.orElse (mergeResponses spread m responses) _ >>= _) _ _ _ at h₂
        cases hmerged : mergeResponses spread m responses with
        | error e =>
          rw [hmerged] at h₂
          exact h₂.err_ne_ok.elim
        | ok merged =>
          rw [hmerged] at h₂
          have hrest := ih h₂ (fun x hx => hsettled x (List.mem_cons_of_mem _ (List.mem_cons_of_mem _ hx)))
            (mergeResponses_counts hcounts hround hm hmerged)
          rw [List.map_cons, List.map_cons, sentRounds_now, sentRounds_batches, List.flatMap_cons, ← List.append_assoc]
          exact hrest
    · simp only [if_neg hnow] at h₁
      obtain ⟨rfl,_,hm'⟩ := h₁.of_ok
      cases hm'
      simpa [sentRounds] using hm

theorem Fits.length {states : List (BitVec 32)} {requests : List BatchRequest} (h : Fits config D states requests) :
    (operationsOf requests).length = states.length * config.batchSize := by
  have hflat : operationsOf requests = (requests.flatMap BatchRequest.clients).flatten := by
    rw [operationsOf, List.flatMap_def, List.flatMap_def, List.flatten_flatten, List.map_map]
    rfl
  have hsizes : (requests.flatMap BatchRequest.clients).map List.length =
      List.replicate (requests.flatMap BatchRequest.clients).length config.batchSize := by
    apply List.eq_replicate_iff.mpr
    refine ⟨List.length_map _,fun size hsize => ?_⟩
    obtain ⟨operations,hmem,rfl⟩ := List.mem_map.mp hsize
    exact (h.full operations hmem).1
  rw [hflat, List.length_flatten, hsizes, List.sum_replicate_nat, h.clients.length_eq, List.length_map]

end BalancedConfig

section Runs
variable {R : Type} [LinearOrder R] {Own : Type} {Returned : Own → Type} {Out Adapter : Type}

/-- The runs of the balanced profile against a service. -/
structure RunsBalanced (config : BalancedConfig) (D : Doubles R)
    (handle : List ℕ → Request → HandlerM Returned Out (Answer Adapter)) : Prop where
  /-- Every run sends the first rounds of one sequence, whatever the clock and the replies. -/
  sends : ∀ spread duration bound tr q, Consumes (config.runBalancedFor D spread duration bound) tr [] q →
    ∃ n, BalancedConfig.sentRounds (tr.map Sigma.fst ++ pending q) = (List.range n).map (config.round D)
  fits : ∀ k, BalancedConfig.Fits config D (config.statesAt k) (config.round D k)
  streams : ∀ k, BalancedConfig.Streams config (config.statesAt k)
  /-- What a run has measured are the operations of its rounds. -/
  measured : ∀ spread duration bound tr m, Returns (config.runBalancedFor D spread duration bound) tr [] (.ok m) →
    (∀ x ∈ tr, Settled handle x) →
      Counts m ((BalancedConfig.sentRounds (tr.map Sigma.fst)).flatMap operationsOf) ∧
      m.get.operations + m.put.operations =
        (BalancedConfig.sentRounds (tr.map Sigma.fst)).length * (config.concurrency * config.batchSize)
  /-- A run whose clock advances is over after as many rounds as the duration has units. -/
  ends : ∀ spread duration bound tr q, Consumes (config.runBalancedFor D spread duration bound) tr [] q →
    (BalancedConfig.readings tr).Pairwise (· < ·) → duration ≤ bound → 0 < bound → q ≠ .err none

variable {config : BalancedConfig} {D : Doubles R} {handle : List ℕ → Request → HandlerM Returned Out (Answer Adapter)}

theorem statesAt_zero : config.statesAt 0 = config.seeds := by
  rw [BalancedConfig.statesAt, Nat.mul_zero, Function.iterate_zero, List.map_id]

theorem length_rounds {n k : ℕ} : (((List.range' k n).map (config.round D)).flatMap operationsOf).length =
    n * (config.concurrency * config.batchSize) := by
  induction n generalizing k with
  | zero => simp
  | succ n ih =>
    rw [List.range'_succ, List.map_cons, List.flatMap_cons, List.length_append, (BalancedConfig.round_fits k).length,
      (BalancedConfig.streams_statesAt k).length, ih, Nat.succ_mul, Nat.add_comm]

theorem runsBalanced (config : BalancedConfig) (D : Doubles R) (hcounts : CountsBatches handle) :
    RunsBalanced config D handle := by
  have hsends : ∀ spread duration bound tr q, Consumes (config.runBalancedFor D spread duration bound) tr [] q →
      ∃ n, BalancedConfig.sentRounds (tr.map Sigma.fst ++ pending q) = (List.range n).map (config.round D) := by
    intro spread duration bound tr q h
    cases h with
    | refl => exact ⟨0,rfl⟩
    | @call _ now _ _ tr _ h =>
      rw [← statesAt_zero] at h
      obtain ⟨n,hn⟩ := BalancedConfig.runRounds_sends h
      exact ⟨n,by rw [List.map_cons, List.cons_append, BalancedConfig.sentRounds_now, hn, List.range_eq_range']⟩
  refine ⟨hsends,BalancedConfig.round_fits,BalancedConfig.streams_statesAt,?_,?_⟩
  · intro spread duration bound tr m h hsettled
    obtain ⟨n,hn⟩ := hsends spread duration bound tr (.ok m) h
    have hcounted : Counts m ((BalancedConfig.sentRounds (tr.map Sigma.fst)).flatMap operationsOf) := by
      obtain ⟨now,tr',rfl,hrest⟩ := h.of_call
      rw [← statesAt_zero] at hrest
      exact BalancedConfig.runRounds_counts hcounts hrest (fun x hx => hsettled x (List.mem_cons_of_mem _ hx)) counts_empty
    change BalancedConfig.sentRounds (tr.map Sigma.fst ++ []) = _ at hn
    rw [List.append_nil] at hn
    refine ⟨hcounted,?_⟩
    rw [hcounted.total, hn, List.length_map, List.length_range, List.range_eq_range']
    exact length_rounds
  · intro spread duration bound tr q h hclock hbound hpos
    obtain ⟨bound,rfl⟩ : ∃ n, bound = n + 1 := ⟨bound - 1,by omega⟩
    cases h with
    | refl => simp [BalancedConfig.runBalancedFor]
    | @call _ now _ _ tr _ h =>
      rw [← statesAt_zero] at h
      exact BalancedConfig.runRounds_ends (Nat.add_le_add_left hbound now) h hclock

/-- The runs of the balanced profile against the Durable Objects and the containers. -/
theorem balanced_rounds (L : DoCache.LocalCacheHead) (config : BalancedConfig) (D : Doubles R) :
    RunsBalanced config D (SlateDbObject.handleJoined (L := L)) ∧ RunsBalanced config D AppState.handleJoined := by
  constructor
  · apply runsBalanced
    rintro r response ⟨schedule,tr,os,h⟩
    exact (SlateDbObject.handleJoined_measured h).counts
  · apply runsBalanced
    rintro r response ⟨schedule,tr,os,h⟩
    exact (AppState.handleJoined_measured h).counts

end Runs

end SlatedbCloudflare.Benchmark
