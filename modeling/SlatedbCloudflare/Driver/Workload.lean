import SlatedbCloudflare.Driver.Seeding
import SlatedbCloudflare.Library.Sampling

/-! # The workload of the balanced profile

Each client of the driver has a generator of its own, seeded with its number. A round
draws for every client a database and then its operations, and gathers the clients of
one database in one request.
-/
namespace SlatedbCloudflare.Benchmark
open Sampling Instance

section Random

/-- The closure of `randomGenerator`: the state after the next number. -/
def randomGenerator (state : BitVec 32) : BitVec 32 :=
  let state := state ^^^ state <<< 13
  let state := state ^^^ state >>> 17
  state ^^^ state <<< 5

theorem randomGenerator_injective : Function.Injective randomGenerator := by
  have hfirst := shiftLeft_injective (w := 32) (k := 13) (by decide)
  have hsecond := ushiftRight_injective (w := 32) (k := 17) (by decide)
  have hthird := shiftLeft_injective (w := 32) (k := 5) (by decide)
  exact (hthird.comp hsecond).comp hfirst

theorem randomGenerator_zero : randomGenerator 0#32 = 0#32 := by decide

end Random

section Sampler
variable {R : Type} [LinearOrder R]

/-- The arithmetic of doubles in the sampler: a sum does not fall when a weight is added,
and a number below one scales a total to at most the total. -/
structure Doubles (R : Type) [LinearOrder R] where
  zero : R
  /-- `total + 1 / Math.pow(rank + 1, theta)` -/
  addWeight : R → ℕ → R
  /-- `random() * total` after the generator has reached this state -/
  scale : BitVec 32 → R → R
  le_addWeight : ∀ total rank, total ≤ addWeight total rank
  scale_le : ∀ state total, zero ≤ total → scale state total ≤ total

/-- Sums that grow by one, in the place of doubles. -/
def Doubles.units : Doubles ℕ := ⟨0,fun total _ => total + 1,fun state total => state.toNat * total / 2 ^ 32,
  fun _ _ => Nat.le_succ _,fun state _ _ => Nat.div_le_of_le_mul (Nat.mul_le_mul_right _ state.isLt.le)⟩

structure Sampler (R : Type) where
  cumulative : List R
  scrambled : List ℕ
  total : R

def fnv64 (input : ℕ) : ℕ :=
  ((List.range 8).foldl (fun s _ => (s.1 >>> 8,((s.2 ^^^ (s.1 &&& 0xff)) * 1099511628211) % 2 ^ 64))
    (input,14695981039346656037)).2

variable (D : Doubles R)

def scrambledZipfianSampler (count : ℕ) : Sampler R :=
  (List.range count).foldl (fun s rank =>
    let total := D.addWeight s.total rank
    ⟨s.cumulative ++ [total],s.scrambled ++ [fnv64 rank % count],total⟩) ⟨[],[],D.zero⟩

namespace Sampler
variable {D} (s : Sampler R)

/-- `cumulative[rank] < target` -/
def below (target : R) (rank : ℕ) : Bool := s.cumulative[rank]?.any (· < target)

/-- The binary search of the closure. -/
def rank (target : R) : ℕ := bisect (s.below target) 0 (s.cumulative.length - 1)

variable (D)

/-- The closure: the record it selects, and the state of the generator after its number. -/
def select (state : BitVec 32) : ℕ × BitVec 32 :=
  let state := randomGenerator state
  (s.scrambled.getD (s.rank (D.scale state s.total)) 0,state)

end Sampler

variable (count : ℕ)

def Doubles.totalTo (n : ℕ) : R := (List.range n).foldl D.addWeight D.zero

variable {D}

theorem Doubles.totalTo_succ (n : ℕ) : D.totalTo (n + 1) = D.addWeight (D.totalTo n) n := by
  rw [totalTo, List.range_succ, List.foldl_append, List.foldl_cons, List.foldl_nil, totalTo]

theorem Doubles.totalTo_monotone : Monotone D.totalTo := by
  apply monotone_nat_of_le_succ
  intro n
  rw [totalTo_succ]
  exact D.le_addWeight _ _

theorem scrambledZipfianSampler_eq : scrambledZipfianSampler D count =
    ⟨(List.range count).map fun rank => D.totalTo (rank + 1),(List.range count).map fun rank => fnv64 rank % count,
      D.totalTo count⟩ := by
  have hloop : ∀ n, (List.range n).foldl (fun s rank =>
      let total := D.addWeight s.total rank
      (⟨s.cumulative ++ [total],s.scrambled ++ [fnv64 rank % count],total⟩ : Sampler R)) ⟨[],[],D.zero⟩ =
      ⟨(List.range n).map fun rank => D.totalTo (rank + 1),(List.range n).map fun rank => fnv64 rank % count,
        D.totalTo n⟩ := by
    intro n
    induction n with
    | zero => rfl
    | succ n ih =>
      rw [List.range_succ, List.foldl_append, ih, List.foldl_cons, List.foldl_nil, List.map_append, List.map_append,
        List.map_singleton, List.map_singleton, Doubles.totalTo_succ]
  exact hloop count

theorem below_iff {target : R} {rank : ℕ} (h : rank < count) :
    (scrambledZipfianSampler D count).below target rank = true ↔ D.totalTo (rank + 1) < target := by
  rw [Sampler.below, scrambledZipfianSampler_eq, List.getElem?_map, List.getElem?_range h]
  simp

variable {count}

/-- The rank that is selected is the first whose cumulative weight reaches the target. -/
theorem rank_spec {target : R} (hcount : 0 < count) (htarget : target ≤ D.totalTo count) :
    (scrambledZipfianSampler D count).rank target < count ∧
      (∀ i < (scrambledZipfianSampler D count).rank target, D.totalTo (i + 1) < target) ∧
      target ≤ D.totalTo ((scrambledZipfianSampler D count).rank target + 1) := by
  have hlength : (scrambledZipfianSampler D count).cumulative.length = count := by
    rw [scrambledZipfianSampler_eq, List.length_map, List.length_range]
  rw [Sampler.rank, hlength]
  have hbounds : 0 ≤ bisect ((scrambledZipfianSampler D count).below target) 0 (count - 1) ∧
      bisect ((scrambledZipfianSampler D count).below target) 0 (count - 1) ≤ count - 1 := bisect_mem (Nat.zero_le _)
  have hdown : ∀ i j, i ≤ j → (scrambledZipfianSampler D count).below target j = true →
      (scrambledZipfianSampler D count).below target i = true := by
    intro i j hij hj
    have hlt : j < count := by
      by_contra hge
      rw [Sampler.below, List.getElem?_eq_none (by omega)] at hj
      cases hj
    rw [below_iff count hlt] at hj
    rw [below_iff count (by omega)]
    exact (Doubles.totalTo_monotone (by omega)).trans_lt hj
  obtain ⟨hbefore,hrest⟩ : (∀ i, 0 ≤ i → i < bisect ((scrambledZipfianSampler D count).below target) 0 (count - 1) →
      (scrambledZipfianSampler D count).below target i = true) ∧
      ∀ i, bisect ((scrambledZipfianSampler D count).below target) 0 (count - 1) ≤ i → i < count - 1 →
        (scrambledZipfianSampler D count).below target i = false := bisect_spec hdown
  generalize bisect ((scrambledZipfianSampler D count).below target) 0 (count - 1) = rank at *
  refine ⟨by omega,fun i hi => ?_,?_⟩
  · exact (below_iff count (by omega)).mp (hbefore i (Nat.zero_le i) hi)
  · by_cases hlast : rank < count - 1
    · have hfound := hrest rank le_rfl hlast
      rw [Bool.eq_false_iff, ne_eq, below_iff count (by omega), not_lt] at hfound
      exact hfound
    · have hcover : rank + 1 = count := by omega
      rwa [hcover]

theorem scrambled_getD {rank : ℕ} (h : rank < count) :
    (scrambledZipfianSampler D count).scrambled.getD rank 0 = fnv64 rank % count := by
  rw [scrambledZipfianSampler_eq, List.getD_eq_getElem?_getD, List.getElem?_map, List.getElem?_range h, Option.map_some,
    Option.getD_some]

/-- The number that the generator draws falls into the interval of one rank, which selects
the record. -/
theorem Doubles.select_spec (D : Doubles R) (hcount : 0 < count) (state : BitVec 32) : ∃ rank < count,
    (∀ i < rank, D.totalTo (i + 1) < D.scale (randomGenerator state) (D.totalTo count)) ∧
      D.scale (randomGenerator state) (D.totalTo count) ≤ D.totalTo (rank + 1) ∧
      (scrambledZipfianSampler D count).select D state = (fnv64 rank % count,randomGenerator state) := by
  have hzero : D.zero ≤ D.totalTo count := Doubles.totalTo_monotone (Nat.zero_le count)
  obtain ⟨hlt,hbefore,hreached⟩ := rank_spec hcount (D.scale_le (randomGenerator state) _ hzero)
  have htotal : (scrambledZipfianSampler D count).total = D.totalTo count := by rw [scrambledZipfianSampler_eq]
  have hselect : (scrambledZipfianSampler D count).select D state =
      ((scrambledZipfianSampler D count).scrambled.getD ((scrambledZipfianSampler D count).rank
        (D.scale (randomGenerator state) (D.totalTo count))) 0,randomGenerator state) := by
    rw [← htotal]
    rfl
  rw [hselect]
  generalize (scrambledZipfianSampler D count).rank (D.scale (randomGenerator state) (D.totalTo count)) = rank at *
  refine ⟨rank,hlt,hbefore,hreached,?_⟩
  rw [scrambled_getD hlt]

end Sampler

/-- What `readConfig` leaves of the environment for the balanced profile. -/
structure BalancedConfig extends Config where
  readPercent : ℕ
  databases_pos : 1 ≤ databases
  readPercent_le : readPercent ≤ 100

structure Drawn where
  index : ℕ
  operations : List BenchmarkOperation
  state : BitVec 32

namespace BalancedConfig
variable {R : Type} [LinearOrder R] (config : BalancedConfig) (D : Doubles R)

def selectRecord (state : BitVec 32) : ℕ × BitVec 32 := (scrambledZipfianSampler D config.records).select D state

/-- One operation: `random() < config.readPercent / 100`, and then the record. -/
def drawOperation (state : BitVec 32) : BenchmarkOperation × BitVec 32 :=
  let state := randomGenerator state
  let kind := if state.toNat * 100 < config.readPercent * 2 ^ 32 then .get else .put
  let selected := config.selectRecord D state
  (⟨kind,seedKey selected.1⟩,selected.2)

def drawOperations : ℕ → BitVec 32 → List BenchmarkOperation × BitVec 32
  | 0, state => ([],state)
  | n + 1, state =>
    let first := config.drawOperation D state
    let rest := drawOperations n first.2
    (first.1 :: rest.1,rest.2)

/-- A client of a round: `Math.floor(random() * databases.length)`, and then its operations. -/
def drawClient (state : BitVec 32) : Drawn :=
  let state := randomGenerator state
  let drawn := config.drawOperations D config.batchSize state
  ⟨pick state config.databases,drawn.1,drawn.2⟩

/-- The loop over the generators, which fills `clientsByDatabase`. -/
def fillRound : List (BitVec 32) → List (List (List BenchmarkOperation)) →
    List (List (List BenchmarkOperation)) × List (BitVec 32)
  | [], clientsByDatabase => (clientsByDatabase,[])
  | state :: states, clientsByDatabase =>
    let drawn := config.drawClient D state
    let filled := fillRound states (clientsByDatabase.modify drawn.index (· ++ [drawn.operations]))
    (filled.1,drawn.state :: filled.2)

def requests (clientsByDatabase : List (List (List BenchmarkOperation))) : List BatchRequest :=
  (List.range config.databases).flatMap fun index =>
    let clients := clientsByDatabase.getD index []
    if 0 < clients.length then [⟨config.database index,clients,config.value⟩] else []

def drawRound (states : List (BitVec 32)) : List BatchRequest × List (BitVec 32) :=
  let filled := config.fillRound D states (List.replicate config.databases [])
  (config.requests filled.1,filled.2)

/-- `randomGenerator(client + 1)` for every client. -/
def seeds : List (BitVec 32) := (List.range config.concurrency).map fun client => BitVec.ofNat 32 (client + 1)

section Draws

theorem selectRecord_spec (state : BitVec 32) :
    (config.selectRecord D state).1 < config.records ∧ (config.selectRecord D state).2 = randomGenerator state := by
  obtain ⟨rank,_,_,_,hselect⟩ := D.select_spec config.records_pos state
  rw [selectRecord, hselect]
  exact ⟨Nat.mod_lt _ config.records_pos,rfl⟩

theorem drawOperation_spec (state : BitVec 32) : (∃ record < config.records,
    (config.drawOperation D state).1.key = seedKey record) ∧
      (config.drawOperation D state).2 = randomGenerator (randomGenerator state) := by
  obtain ⟨hrecord,hstate⟩ := config.selectRecord_spec D (randomGenerator state)
  exact ⟨⟨_,hrecord,rfl⟩,hstate⟩

theorem drawOperations_spec (n : ℕ) (state : BitVec 32) : (config.drawOperations D n state).1.length = n ∧
    (∀ o ∈ (config.drawOperations D n state).1, ∃ record < config.records, o.key = seedKey record) ∧
      (config.drawOperations D n state).2 = randomGenerator^[2 * n] state := by
  induction n generalizing state with
  | zero => exact ⟨rfl,by simp [drawOperations],rfl⟩
  | succ n ih =>
    obtain ⟨hkey,hstate⟩ := config.drawOperation_spec D state
    obtain ⟨hlength,hkeys,hlast⟩ := ih (config.drawOperation D state).2
    refine ⟨?_,?_,?_⟩
    · rw [drawOperations, List.length_cons, hlength]
    · exact List.forall_mem_cons.mpr ⟨hkey,hkeys⟩
    · have hcount : 2 * (n + 1) = 2 * n + 1 + 1 := by omega
      rw [drawOperations, hlast, hstate, hcount, Function.iterate_succ_apply, Function.iterate_succ_apply]

def numbersPerRound : ℕ := 2 * config.batchSize + 1

theorem drawClient_spec (state : BitVec 32) : (config.drawClient D state).index < config.databases ∧
    (config.drawClient D state).operations.length = config.batchSize ∧
    (∀ o ∈ (config.drawClient D state).operations, ∃ record < config.records, o.key = seedKey record) ∧
      (config.drawClient D state).state = randomGenerator^[config.numbersPerRound] state := by
  obtain ⟨hlength,hkeys,hstate⟩ :=
    config.drawOperations_spec D config.batchSize (randomGenerator state)
  exact ⟨pick_lt _ config.databases_pos,hlength,hkeys,hstate.trans (Function.iterate_succ_apply _ _ _).symm⟩

end Draws

section Rounds

def clientsFor (states : List (BitVec 32)) (index : ℕ) : List (List BenchmarkOperation) :=
  ((states.map (config.drawClient D)).filter fun drawn => drawn.index = index).map Drawn.operations

theorem fillRound_states (states : List (BitVec 32)) (clientsByDatabase : List (List (List BenchmarkOperation))) :
    (config.fillRound D states clientsByDatabase).2 = states.map randomGenerator^[config.numbersPerRound] := by
  induction states generalizing clientsByDatabase with
  | nil => rfl
  | cons state states ih =>
    obtain ⟨_,_,_,hstate⟩ := config.drawClient_spec D state
    rw [fillRound, ih, hstate, List.map_cons]

theorem fillRound_clients (states : List (BitVec 32)) (clientsByDatabase : List (List (List BenchmarkOperation)))
    {index : ℕ} (h : index < clientsByDatabase.length) :
    (config.fillRound D states clientsByDatabase).1.getD index [] =
      clientsByDatabase.getD index [] ++ config.clientsFor D states index := by
  induction states generalizing clientsByDatabase with
  | nil => simp [fillRound, clientsFor]
  | cons state states ih =>
    have hlength : index < (clientsByDatabase.modify (config.drawClient D state).index
        (· ++ [(config.drawClient D state).operations])).length := by rwa [List.length_modify]
    rw [fillRound, ih _ hlength, List.getD_eq_getElem?_getD, List.getElem?_modify, List.getElem?_eq_getElem h,
      List.getD_eq_getElem?_getD, List.getElem?_eq_getElem h]
    by_cases hindex : (config.drawClient D state).index = index
    · simp [clientsFor, hindex]
    · simp [clientsFor, hindex]

/-- Round by round the databases get the clients that drew them. -/
theorem drawRound_requests (states : List (BitVec 32)) : (config.drawRound D states).1 =
    (List.range config.databases).flatMap fun index =>
      if 0 < (config.clientsFor D states index).length then
        [⟨config.database index,config.clientsFor D states index,config.value⟩] else [] := by
  rw [drawRound, requests]
  apply List.flatMap_congr
  intro index hindex
  have hlt : index < (List.replicate config.databases ([] : List (List BenchmarkOperation))).length := by
    rw [List.length_replicate]
    exact List.mem_range.mp hindex
  have hempty : (List.replicate config.databases ([] : List (List BenchmarkOperation))).getD index [] = [] := by
    rw [List.getD_eq_getElem?_getD, List.getElem?_replicate_of_lt (List.mem_range.mp hindex), Option.getD_some]
  simp only [config.fillRound_clients D states _ hlt, hempty, List.nil_append]

end Rounds

end BalancedConfig

end SlatedbCloudflare.Benchmark
