import SlatedbCloudflare.Driver.SeedingRuns
import SlatedbCloudflare.Driver.Workload
import SlatedbCloudflare.Instance.Measurements
import SlatedbCloudflare.Library.Fuel

/-! # The rounds of the balanced profile

Until the deadline the driver sends one round after another and merges what it measured.
Neither the clock nor the replies change what a round sends.
-/
namespace SlatedbCloudflare.Benchmark
open Programs Tasks Fuel Sampling Instance

/-- What the loop waits for: a reading of `performance.now()` in units of its resolution,
and the responses to the batches of a round. -/
inductive DriverCall
  | now
  | batches (requests : List BatchRequest)

abbrev DriverReply : DriverCall → Type
  | .now => ℕ
  | .batches _ => Except String (List BenchmarkBatchResponse)

abbrev DriverM (α : Type) := Cut DriverCall DriverReply String α

def mergeResponses (spread : ℕ) (measurements : BenchmarkBatchResponse) (responses : List BenchmarkBatchResponse) :
    Except String BenchmarkBatchResponse :=
  responses.foldlM (fun m response => do
    let get ← mergeEmbedded spread m.get response.get
    let put ← mergeEmbedded spread m.put response.put
    pure ⟨get,put⟩) measurements

theorem mergeResponses_cons {spread : ℕ} {m response m' : BenchmarkBatchResponse} {responses : List BenchmarkBatchResponse}
    (h : mergeResponses spread m (response :: responses) = .ok m') :
    mergeResponses spread (m.merge response) responses = .ok m' := by
  rw [mergeResponses, List.foldlM_cons] at h
  obtain ⟨_,hboth,hrest⟩ := Traversals.bind_ok.mp h
  obtain ⟨get,hget,hrestput⟩ := Traversals.bind_ok.mp hboth
  obtain ⟨put,hput,hpair⟩ := Traversals.bind_ok.mp hrestput
  obtain ⟨_,rfl⟩ := mergeEmbedded_ok hget
  obtain ⟨_,rfl⟩ := mergeEmbedded_ok hput
  cases hpair
  exact hrest

namespace BalancedConfig
variable {R : Type} [LinearOrder R] (config : BalancedConfig) (D : Doubles R)

/-- The loop of `runBalancedFor`, cut off after `bound` readings of the clock. -/
def runRounds (spread deadline : ℕ) : ℕ → List (BitVec 32) → BenchmarkBatchResponse → DriverM BenchmarkBatchResponse
  | 0, _, _ => .err none
  | bound + 1, randoms, measurements => do
    let now ← Prog.ask .now
    if now < deadline then do
      let round := config.drawRound D randoms
      let replies ← Prog.ask (.batches round.1)
      let responses ← Prog.orElse replies fun e => .err (some e)
      let merged ← Prog.orElse (mergeResponses spread measurements responses) fun e => .err (some e)
      runRounds spread deadline bound round.2 merged
    else pure measurements

def runBalancedFor (spread duration bound : ℕ) : DriverM BenchmarkBatchResponse := do
  let now ← Prog.ask .now
  config.runRounds D spread (now + duration) bound config.seeds .empty

def statesAt (k : ℕ) : List (BitVec 32) := config.seeds.map randomGenerator^[config.numbersPerRound * k]

def round (k : ℕ) : List BatchRequest := (config.drawRound D (config.statesAt k)).1

theorem drawRound_statesAt (k : ℕ) : (config.drawRound D (config.statesAt k)).2 = config.statesAt (k + 1) := by
  rw [drawRound, fillRound_states, statesAt, statesAt, List.map_map, ← Function.iterate_add, Nat.mul_succ, Nat.add_comm]

/-- The requests give every client of the driver one database and a full batch of
operations, and the services accept them. -/
structure Fits (states : List (BitVec 32)) (requests : List BatchRequest) : Prop where
  apart : (requests.map BatchRequest.database).Nodup
  each : ∀ r ∈ requests, ∃ index < config.databases,
    r = ⟨config.database index,config.clientsFor D states index,config.value⟩
  accepted : ∀ r ∈ requests, ValidBatch r.clients
  clients : (requests.flatMap BatchRequest.clients).Perm (states.map fun state => (config.drawClient D state).operations)
  full : ∀ operations ∈ requests.flatMap BatchRequest.clients, operations.length = config.batchSize ∧
    ∀ o ∈ operations, ∃ record < config.records, o.key = seedKey record

/-- The generators of a round differ from each other, and none has stopped at zero. -/
structure Streams (states : List (BitVec 32)) : Prop where
  length : states.length = config.concurrency
  nodup : states.Nodup
  alive : 0#32 ∉ states

section Clients
variable {config} {D} {states : List (BitVec 32)} {requests : List BatchRequest}

theorem streams_seeds : Streams config config.seeds := by
  have hsmall : ∀ client < config.concurrency, client + 1 < 2 ^ 32 := by
    have hbounds := config.concurrency_bounds.2
    intro client hclient
    omega
  refine ⟨by rw [seeds, List.length_map, List.length_range],?_,?_⟩
  · apply List.Nodup.map_on _ List.nodup_range
    intro client hclient client' hclient' heq
    have hnat := congrArg BitVec.toNat heq
    rw [BitVec.toNat_ofNat, BitVec.toNat_ofNat, Nat.mod_eq_of_lt (hsmall _ (List.mem_range.mp hclient)),
      Nat.mod_eq_of_lt (hsmall _ (List.mem_range.mp hclient'))] at hnat
    omega
  · intro hzero
    obtain ⟨client,hclient,heq⟩ := List.mem_map.mp hzero
    have hnat := congrArg BitVec.toNat heq
    rw [BitVec.toNat_ofNat, Nat.mod_eq_of_lt (hsmall _ (List.mem_range.mp hclient))] at hnat
    exact Nat.succ_ne_zero client hnat

/-- No two clients of the driver ever draw the same number at the same time. -/
theorem Streams.iterate (h : Streams config states) (n : ℕ) : Streams config (states.map randomGenerator^[n]) := by
  refine ⟨by rw [List.length_map, h.length],h.nodup.map (randomGenerator_injective.iterate n),?_⟩
  intro hzero
  obtain ⟨state,hstate,heq⟩ := List.mem_map.mp hzero
  have hfixed : randomGenerator^[n] 0#32 = 0#32 := Function.iterate_fixed randomGenerator_zero n
  rw [← hfixed] at heq
  exact h.alive (randomGenerator_injective.iterate n heq ▸ hstate)

theorem streams_statesAt (k : ℕ) : Streams config (config.statesAt k) := streams_seeds.iterate _

theorem mem_drawRound {r : BatchRequest} (h : r ∈ (config.drawRound D states).1) : ∃ index < config.databases,
    0 < (config.clientsFor D states index).length ∧
      r = ⟨config.database index,config.clientsFor D states index,config.value⟩ := by
  rw [drawRound_requests] at h
  obtain ⟨index,hindex,hr⟩ := List.mem_flatMap.mp h
  by_cases hpos : 0 < (config.clientsFor D states index).length
  · rw [if_pos hpos, List.mem_singleton] at hr
    exact ⟨index,List.mem_range.mp hindex,hpos,hr⟩
  · rw [if_neg hpos] at hr
    cases hr

/-- The requests of a round carry the clients that drew each database. -/
theorem drawRound_clients : ((config.drawRound D states).1.flatMap BatchRequest.clients).Perm
    (states.map fun state => (config.drawClient D state).operations) := by
  have hflat : (config.drawRound D states).1.flatMap BatchRequest.clients =
      ((List.range config.databases).flatMap fun index => (states.map (config.drawClient D)).filter fun drawn =>
        drawn.index = index).map Drawn.operations := by
    rw [drawRound_requests, List.flatMap_assoc, List.map_flatMap]
    apply List.flatMap_congr
    intro index _
    by_cases hpos : 0 < (config.clientsFor D states index).length
    · rw [if_pos hpos, List.flatMap_singleton]
      exact rfl
    · have hnone : config.clientsFor D states index = [] := List.eq_nil_of_length_eq_zero (by omega)
      rw [if_neg hpos, List.flatMap_nil]
      exact hnone.symm
  have hall : (states.map (config.drawClient D)).filter (fun drawn => drawn.index < config.databases) =
      states.map (config.drawClient D) := by
    apply List.filter_eq_self.mpr
    intro drawn hdrawn
    obtain ⟨state,_,rfl⟩ := List.mem_map.mp hdrawn
    exact decide_eq_true (config.drawClient_spec D state).1
  have hsplit := grouped_perm (states.map (config.drawClient D)) Drawn.index config.databases
  rw [hall] at hsplit
  have hmapped := hsplit.map Drawn.operations
  rwa [← hflat, List.map_map] at hmapped

theorem drawRound_fits (hlength : states.length = config.concurrency) :
    Fits config D states (config.drawRound D states).1 := by
  have hfull : ∀ operations ∈ (config.drawRound D states).1.flatMap BatchRequest.clients,
      operations.length = config.batchSize ∧ ∀ o ∈ operations, ∃ record < config.records, o.key = seedKey record := by
    intro operations hmem
    obtain ⟨state,_,rfl⟩ := List.mem_map.mp (drawRound_clients.mem_iff.mp hmem)
    obtain ⟨_,hbatch,hkeys,_⟩ := config.drawClient_spec D state
    exact ⟨hbatch,hkeys⟩
  refine ⟨?_,?_,?_,drawRound_clients,hfull⟩
  · rw [drawRound_requests, List.map_flatMap, List.nodup_flatMap]
    constructor
    · intro index _
      split_ifs
      · exact List.nodup_singleton _
      · exact List.nodup_nil
    · apply (List.nodup_range).pairwise_of_forall_ne
      intro i _ j _ hne database hi hj
      have hname : ∀ index, database ∈ List.map BatchRequest.database
          (if 0 < (config.clientsFor D states index).length then
            [⟨config.database index,config.clientsFor D states index,config.value⟩] else []) →
          database = config.database index := by
        intro index hmem
        split_ifs at hmem
        · exact List.mem_singleton.mp hmem
        · cases hmem
      exact hne (Config.database_inj ((hname i hi).symm.trans (hname j hj)))
  · intro r hr
    obtain ⟨index,hindex,_,hr⟩ := mem_drawRound hr
    exact ⟨index,hindex,hr⟩
  · intro r hr
    have hmem : ∀ operations ∈ r.clients, operations ∈ (config.drawRound D states).1.flatMap BatchRequest.clients :=
      fun operations hoperations => List.mem_flatMap.mpr ⟨r,hr,hoperations⟩
    obtain ⟨index,_,hpos,rfl⟩ := mem_drawRound hr
    refine ⟨List.ne_nil_of_length_pos hpos,?_,?_⟩
    · have hfilter := List.length_filter_le (fun drawn : Drawn => drawn.index = index) (states.map (config.drawClient D))
      rw [List.length_map, hlength] at hfilter
      rw [clientsFor, List.length_map]
      exact hfilter.trans config.concurrency_bounds.2
    · intro operations hoperations
      have hsize := (hfull operations (hmem operations hoperations)).1
      have hbounds := config.batchSize_bounds
      exact ⟨List.ne_nil_of_length_pos (by omega),by omega⟩

theorem round_fits (k : ℕ) : Fits config D (config.statesAt k) (config.round D k) :=
  drawRound_fits (streams_statesAt k).length

end Clients

section Loop
variable {config} {D} {spread deadline bound k : ℕ} {m : BenchmarkBatchResponse}

def sentRounds (calls : List DriverCall) : List (List BatchRequest) :=
  calls.filterMap fun call => match call with
    | .now => none
    | .batches requests => some requests

theorem sentRounds_now (calls : List DriverCall) : sentRounds (.now :: calls) = sentRounds calls := rfl

theorem sentRounds_batches (requests : List BatchRequest) (calls : List DriverCall) :
    sentRounds (.batches requests :: calls) = requests :: sentRounds calls := rfl

theorem runRounds_turn : config.runRounds D spread deadline (bound + 1) (config.statesAt k) m =
    .call .now fun now => if now < deadline then
      .call (.batches (config.round D k)) fun replies => Prog.orElse replies (fun e => .err (some e)) >>= fun responses =>
        Prog.orElse (mergeResponses spread m responses) (fun e => .err (some e)) >>= fun merged =>
          config.runRounds D spread deadline bound (config.statesAt (k + 1)) merged
      else .ok m := by
  simp only [runRounds, drawRound_statesAt]
  rfl

variable {tr : List ((r : DriverCall) × DriverReply r)} {os : List Empty} {q : DriverM BenchmarkBatchResponse}

/-- What the loop sends is the same for all clocks and all replies. -/
theorem runRounds_sends (h : Consumes (config.runRounds D spread deadline bound (config.statesAt k) m) tr os q) :
    ∃ n, sentRounds (tr.map Sigma.fst ++ pending q) = (List.range' k n).map (config.round D) := by
  induction bound generalizing k m tr os with
  | zero =>
    cases h
    exact ⟨0,rfl⟩
  | succ bound ih =>
    rw [runRounds_turn] at h
    cases h with
    | refl => exact ⟨0,rfl⟩
    | @call _ now _ _ _ _ h =>
      by_cases hnow : now < deadline
      · simp only [if_pos hnow] at h
        cases h with
        | refl => exact ⟨1,rfl⟩
        | @call _ replies _ _ tr _ h =>
          cases replies with
          | error e =>
            cases h
            exact ⟨1,rfl⟩
          | ok responses =>
            change Consumes (Prog.orElse (mergeResponses spread m responses) _ >>= _) _ _ _ at h
            cases hmerge : mergeResponses spread m responses with
            | error e =>
              rw [hmerge] at h
              cases h
              exact ⟨1,rfl⟩
            | ok merged =>
              rw [hmerge] at h
              obtain ⟨n,hn⟩ := ih h
              refine ⟨n + 1,?_⟩
              rw [List.map_cons, List.map_cons, List.cons_append, List.cons_append, sentRounds_now, sentRounds_batches,
                hn, List.range'_succ, List.map_cons]
      · simp only [if_neg hnow] at h
        cases h
        exact ⟨0,rfl⟩

def readings (tr : List ((r : DriverCall) × DriverReply r)) : List ℕ :=
  tr.filterMap fun x => match x with
    | ⟨.now,now⟩ => some now
    | ⟨.batches _,_⟩ => none

/-- If the clock advances from round to round the deadline comes. -/
theorem runRounds_ends {last : ℕ} (hdeadline : deadline ≤ last + (bound + 1))
    (h : Consumes (config.runRounds D spread deadline (bound + 1) (config.statesAt k) m) tr os q)
    (hclock : (last :: readings tr).Pairwise (· < ·)) : q ≠ .err none := by
  induction bound generalizing k m tr os last with
  | zero =>
    rw [runRounds_turn] at h
    cases h with
    | refl => simp
    | @call _ now _ _ tr _ h =>
      have hlater : last < now := (List.pairwise_cons.mp hclock).1 now (List.mem_cons_self)
      have hover : Nat.le deadline now := Nat.le_trans hdeadline hlater
      simp only [if_neg (Nat.not_lt.mpr hover)] at h
      cases h
      simp
  | succ bound ih =>
    rw [runRounds_turn] at h
    cases h with
    | refl => simp
    | @call _ now _ _ tr _ h =>
      obtain ⟨hlast,hrest⟩ := List.pairwise_cons.mp hclock
      have hlater : last < now := hlast now List.mem_cons_self
      by_cases hnow : now < deadline
      · simp only [if_pos hnow] at h
        cases h with
        | refl => simp
        | @call _ replies _ _ tr _ h =>
          cases replies with
          | error e =>
            cases h
            simp
          | ok responses =>
            change Consumes (Prog.orElse (mergeResponses spread m responses) _ >>= _) _ _ _ at h
            cases hmerge : mergeResponses spread m responses with
            | error e =>
              rw [hmerge] at h
              cases h
              simp
            | ok merged =>
              rw [hmerge] at h
              exact ih (by omega) h hrest
      · simp only [if_neg hnow] at h
        cases h
        simp

end Loop

end BalancedConfig

end SlatedbCloudflare.Benchmark
