import SlatedbCloudflare.Driver.Rounds
import SlatedbCloudflare.Instance.StoredKeys

/-! # The rounds after the seeding

When the seeding of a database has fulfilled, its instance has stored every key that the
rounds read, so no round fails for a missing key.
-/
namespace SlatedbCloudflare.Benchmark
open Programs Tasks Locks ObjectStore Utf8 Histories Instance

section Instances
variable {ι Own : Type} {Returned : Own → Type} {Out Adapter : Type}

def BatchRequest.request (r : BatchRequest) : Request := ⟨r.database,.ok (.benchmarkBatch r.value r.clients)⟩

/-- The seeding task of the database has fulfilled, each of its batches answered by the instance. -/
def Seeded (config : Config) (index : ℕ) (requests : ι → Request)
    (S : Pool ι World (Op Own) (Reply Returned) Out AppError (Answer Adapter)) : Prop :=
  ∃ spread tr m, Returns (config.seedBalancedDatabase spread (config.database index)) tr [] (.ok m) ∧
    ∀ x ∈ tr, ∃ i a, requests i = x.1.request ∧ S.thread i = .ok a

variable {config : Config} {index : ℕ} {requests : ι → Request}
  {S : Pool ι World (Op Own) (Reply Returned) Out AppError (Answer Adapter)}

theorem Seeded.stored (h : Seeded config index requests S) {record : ℕ} (hrecord : record < config.records) :
    Stored requests S (seedKey record) := by
  obtain ⟨_,tr,m,hreturns,hanswered⟩ := h
  obtain ⟨count,hsends,hall⟩ := Config.seedFrom_consumes hreturns (Nat.zero_le _)
  have hcount := hall m rfl
  have hmem : seedOperation record ∈ (tr.map Sigma.fst ++ []).flatMap fun r : BatchRequest => r.clients.flatten := by
    have hrecords := hsends.records
    rw [show pending (Prog.ofResult (.ok m) : Task BatchRequest BatchReply String EmbeddedMeasurements) = [] from rfl]
      at hrecords
    rw [hrecords]
    exact List.mem_map_of_mem (List.mem_range'_1.mpr ⟨Nat.zero_le _,by omega⟩)
  rw [List.append_nil] at hmem
  obtain ⟨r,hr,ho⟩ := List.mem_flatMap.mp hmem
  obtain ⟨x,hx,rfl⟩ := List.mem_map.mp hr
  obtain ⟨i,a,hi,ha⟩ := hanswered x hx
  obtain ⟨operations,hoperations,hput⟩ := List.mem_flatten.mp ho
  exact ⟨i,a,_,ha,congrArg Request.call hi,operations,hoperations,hput⟩

end Instances

section Rounds
variable {R : Type} [LinearOrder R] {ι Own : Type} {Returned : Own → Type} {Out Adapter : Type} [DecidableEq ι]

/-- Every batch of a round that the instance began after the events `es` and has finished
succeeded, unless a call that it made has failed. -/
def RoundsSucceed (config : BalancedConfig) (D : Doubles R) (served : (r : Own) → Returned r → Prop)
    (requests : ι → Request) (es es' : Events ι Returned)
    (T : Pool ι World (Op Own) (Reply Returned) Out AppError (Answer Adapter)) : Prop :=
  ∀ i k, ∀ r ∈ config.round D k, ∀ result, requests i = r.request → own i es = [] →
    T.thread i = .ofResult result → ((∃ a, result = .ok a) ↔ ∀ e ∈ own i es', ¬ Failed served e.answer)

variable {config : BalancedConfig} {D : Doubles R} {index : ℕ} {served : (r : Own) → Returned r → Prop}
  {requests : ι → Request} {es es' : Events ι Returned}
  {S T : Pool ι World (Op Own) (Reply Returned) Out AppError (Answer Adapter)}

theorem rounds_succeed (h : Finds served requests es S es' T) (hseeded : Seeded config.toConfig index requests S) :
    RoundsSucceed config D served requests es es' T := by
  intro i k r hr result hi hown hresult
  have hfits : BalancedConfig.Fits config D (config.statesAt k) (config.round D k) := BalancedConfig.round_fits k
  refine h.batches i r.value r.clients result hown (congrArg Request.call hi) (hfits.accepted r hr) ?_ hresult
  intro operations hoperations o ho _
  have hmem : operations ∈ (config.round D k).flatMap BatchRequest.clients := List.mem_flatMap.mpr ⟨r,hr,hoperations⟩
  obtain ⟨record,hrecord,hkey⟩ := (hfits.full operations hmem).2 o ho
  rw [hkey]
  exact hseeded.stored hrecord

end Rounds

section Services
variable {R : Type} [LinearOrder R] (L : DoCache.LocalCacheHead) {ι : Type} [DecidableEq ι]
  (texts : String → List (Write String String)) (schedules : ι → List ℕ) (requests : ι → Request)
  (config : BalancedConfig) (D : Doubles R) (index : ℕ)

/-- Whatever else an instance is asked for but to delete, its rounds find what its seeding
has stored. -/
theorem rounds_after_seeding (hvalid : ValidDatabaseName (config.database index))
    (hname : ∀ i, (requests i).database = config.database index)
    (hcalls : ∀ i call, (requests i).call = .ok call → call.Spares) :
    (∀ es S es' T, Run Acts (objectPool L texts schedules requests) es S → Run Acts S es' T →
      OpensBeforeFailures ((es ++ es').map (Event.map World.slot)) → Seeded config.toConfig index requests S →
        RoundsSucceed config D SlateDbObject.Served requests es es' T) ∧
    (∀ es S es' T, Run Acts (processPool texts schedules requests) es S → Run Acts S es' T →
      OpensBeforeFailures ((es ++ es').map (Event.map World.slot)) → Seeded config.toConfig index requests S →
        RoundsSucceed config D AppState.Served requests es es' T) := by
  constructor
  · exact fun _ _ _ _ h h' hopen hseeded => rounds_succeed (object_finds hvalid hname hcalls h h' hopen) hseeded
  · exact fun _ _ _ _ h h' hopen hseeded => rounds_succeed (process_finds hvalid hname hcalls h h' hopen) hseeded

end Services

section Witnesses

def smallConfig : BalancedConfig := ⟨⟨"bench",1,1,1,1,"x",by decide,by decide,by decide⟩,100,by decide,by decide⟩

def smallSeeding : BatchRequest := ⟨"bench-0",[[⟨.put,"seed-00000000"⟩]],"x"⟩

def smallRound : BatchRequest := ⟨"bench-0",[[⟨.get,"seed-00000000"⟩]],"x"⟩

def smallRequests (reading : Bool) : Request := if reading then smallRound.request else smallSeeding.request

theorem small_round : smallConfig.round Doubles.units 0 = [smallRound] := by
  have hsearch : ∀ below : ℕ → Bool, Sampling.bisect below 0 0 = 0 := by
    intro below
    rw [Sampling.bisect, if_neg (Nat.lt_irrefl 0)]
  have hname : smallConfig.database 0 = "bench-0" := by decide
  have hkey : seedKey (fnv64 0 % 1) = "seed-00000000" := by
    rw [Nat.mod_one]
    decide
  simp [BalancedConfig.round, BalancedConfig.drawRound, BalancedConfig.statesAt, BalancedConfig.seeds, smallRound,
    BalancedConfig.fillRound, BalancedConfig.drawClient, BalancedConfig.drawOperations, BalancedConfig.drawOperation,
    BalancedConfig.selectRecord, Sampler.select, scrambledZipfianSampler, Sampler.rank, hsearch,
    BalancedConfig.requests, randomGenerator, Sampling.pick, hkey, smallConfig]
  exact hname

theorem small_seeding : smallConfig.batchFrom "bench-0" 0 = smallSeeding := by
  have hkey : seedKey 0 = "seed-00000000" := by decide
  simp [Config.batchFrom, Config.nextBatch, Config.fillClients, Config.fillOperations_nil, smallConfig, smallSeeding,
    seedOperation, hkey]

section Replies
variable {Own : Type} {Returned : Own → Type} {Out Adapter : Type}

def seeding (own : Own) (x : Returned own) : List ((r : Locked (Op Own)) × Locked.Reply (Reply Returned) r) :=
  creating "bench-0" own x ++
    [⟨.act .now,0⟩,⟨.act (.put 0 (asBytes "seed-00000000") (asBytes "x") false),.ok ()⟩,⟨.act .now,1⟩]

def reading : List ((r : Locked (Op Own)) × Locked.Reply (Reply Returned) r) :=
  entering "bench-0" ++
    [⟨.act .now,2⟩,⟨.act (.get 0 (asBytes "seed-00000000")),.ok (some (asBytes "x"))⟩,⟨.act .now,3⟩]

def seededData : Data := fresh.data.write "bench-0" (asBytes "seed-00000000") (some (asBytes "x"))

theorem unfailed_now (name : String) (d : Data) (n : ℕ) :
    @ActsUnfailed Own Returned ⟨openedAs name,d⟩ .now n ⟨openedAs name,d⟩ := ⟨⟨rfl,rfl⟩,rfl⟩

theorem chain_seeding {ι : Type} (i : ι) (own : Own) (x : Returned own) : Chain (Alone (@ActsUnfailed Own Returned) i)
    (fresh,none) (seeding own x) (⟨openedAs "bench-0",seededData⟩,none) := by
  have hput : @ActsUnfailed Own Returned ⟨openedAs "bench-0",fresh.data⟩
      (.put 0 (asBytes "seed-00000000") (asBytes "x") false) (.ok ()) ⟨openedAs "bench-0",seededData⟩ :=
    ⟨⟨rfl,live_openedAs _,fun _ => rfl⟩,rfl⟩
  apply (chain_creating i "bench-0" own x).append
  refine .cons (u := (⟨openedAs "bench-0",fresh.data⟩,none)) ⟨unfailed_now _ _ 0,rfl⟩ ?_
  refine .cons (u := (⟨openedAs "bench-0",seededData⟩,none)) ⟨hput,rfl⟩ ?_
  exact .cons ⟨unfailed_now _ _ 1,rfl⟩ (.nil _)

theorem chain_reading {ι : Type} (i : ι) : Chain (Alone (@ActsUnfailed Own Returned) i)
    (⟨openedAs "bench-0",seededData⟩,none) reading (⟨openedAs "bench-0",seededData⟩,none) := by
  have hfound : some (asBytes "x") = seededData.content "bench-0" (asBytes "seed-00000000") := by
    simp [seededData, fresh, World.start, Data.content, Data.opening, Data.write, replay, applyWrite]
  have hget : @ActsUnfailed Own Returned ⟨openedAs "bench-0",seededData⟩ (.get 0 (asBytes "seed-00000000"))
      (.ok (some (asBytes "x"))) ⟨openedAs "bench-0",seededData⟩ := ⟨⟨rfl,live_openedAs _,rfl,fun _ => hfound⟩,rfl⟩
  apply (chain_entering i "bench-0" seededData).append
  refine .cons (u := (⟨openedAs "bench-0",seededData⟩,none)) ⟨unfailed_now _ _ 2,rfl⟩ ?_
  refine .cons (u := (⟨openedAs "bench-0",seededData⟩,none)) ⟨hget,rfl⟩ ?_
  exact .cons ⟨unfailed_now _ _ 3,rfl⟩ (.nil _)

theorem small_seeded {S : Pool Bool World (Op Own) (Reply Returned) Out AppError (Answer Adapter)} {a : Answer Adapter}
    (h : S.thread false = .ok a) : Seeded smallConfig.toConfig 0 smallRequests S := by
  have hname : smallConfig.database 0 = "bench-0" := by decide
  have hfirst : 0 < smallConfig.records := by decide
  have hlast : smallConfig.records ≤ 0 + smallConfig.batchCount 0 := by decide
  refine ⟨0,[⟨smallSeeding,.ok .empty⟩],emptyEmbeddedMeasurements,?_,?_⟩
  · rw [Config.seedBalancedDatabase, hname, Config.seedFrom_batch hfirst, small_seeding]
    refine .call ?_
    rw [Prog.orElse_ok, Prog.ok_bind, mergeEmbedded_fits (Nat.le_refl 0), Prog.orElse_ok, Prog.ok_bind,
      Config.seedFrom_done hlast]
    exact .refl _
  · intro x hx
    cases List.mem_singleton.mp hx
    exact ⟨false,a,rfl,h⟩

end Replies

/-- A seeding and a round after it, by either service. -/
theorem rounds_after_seeding_small : smallRound ∈ smallConfig.round Doubles.units 0 ∧
    (∃ es S es' T, Run Acts (objectPool DoCache.LocalCacheHead.plain (fun _ => []) (fun _ => []) smallRequests) es S ∧
      Run Acts S es' T ∧ (∃ m, T.thread true = .ok (.batch m)) ∧
      RoundsSucceed smallConfig Doubles.units SlateDbObject.Served smallRequests es es' T) ∧
    (∃ es S es' T, Run Acts (processPool (fun _ => []) (fun _ => []) smallRequests) es S ∧ Run Acts S es' T ∧
      (∃ m, T.thread true = .ok (.batch m)) ∧
      RoundsSucceed smallConfig Doubles.units AppState.Served smallRequests es es' T) := by
  have hvalid : ValidDatabaseName (smallConfig.database 0) := by decide
  have hname : ∀ i, (smallRequests i).database = smallConfig.database 0 := by decide
  have hcalls : ∀ i call, (smallRequests i).call = .ok call → call.Spares := by
    rintro (_ | _) call ⟨⟩ <;> trivial
  obtain ⟨hobject,hprocess⟩ := rounds_after_seeding DoCache.LocalCacheHead.plain (fun _ => []) (fun _ => []) smallRequests
    smallConfig Doubles.units 0 hvalid hname hcalls
  refine ⟨small_round ▸ List.mem_singleton.mpr rfl,?_,?_⟩
  · have hput : Consumes (SlateDbObject.handleJoined (L := DoCache.LocalCacheHead.plain) [] (smallRequests false))
        (seeding (.fromStorage "bench-0") (.ok ())) [] (.ok (.batch ⟨⟨0,0,[]⟩,⟨1,0,[1]⟩⟩)) :=
      .call (.call (.call (.call (.call (.call (.call (.call (.call (.refl _)))))))))
    have hget : Consumes (SlateDbObject.handleJoined (L := DoCache.LocalCacheHead.plain) [] (smallRequests true))
        reading [] (.ok (.batch ⟨⟨1,0,[1]⟩,⟨0,0,[]⟩⟩)) :=
      .call (.call (.call (.call (.call (.call (.refl _))))))
    obtain ⟨es,S,es',T,hfirst,hrest,hopen,hdone,hread,_⟩ :=
      run_two (p := fun i => SlateDbObject.handleJoined (L := DoCache.LocalCacheHead.plain) [] (smallRequests i)) hput hget
        (chain_seeding false _ _) (chain_reading true)
    exact ⟨es,S,es',T,hfirst,hrest,⟨_,hread⟩,hobject es S es' T hfirst hrest hopen (small_seeded hdone)⟩
  · have hput : Consumes (AppState.handleJoined [] (smallRequests false))
        (seeding (.createDirAll (AppState.cacheDir "bench-0")) (.ok ())) [] (.ok (.batch ⟨⟨0,0,[]⟩,⟨1,0,[1]⟩⟩)) :=
      .call (.call (.call (.call (.call (.call (.call (.call (.call (.refl _)))))))))
    have hget : Consumes (AppState.handleJoined [] (smallRequests true)) reading []
        (.ok (.batch ⟨⟨1,0,[1]⟩,⟨0,0,[]⟩⟩)) :=
      .call (.call (.call (.call (.call (.call (.refl _))))))
    obtain ⟨es,S,es',T,hfirst,hrest,hopen,hdone,hread,_⟩ :=
      run_two (p := fun i => AppState.handleJoined [] (smallRequests i)) hput hget (chain_seeding false _ _)
        (chain_reading true)
    exact ⟨es,S,es',T,hfirst,hrest,⟨_,hread⟩,hprocess es S es' T hfirst hrest hopen (small_seeded hdone)⟩

end Witnesses

end SlatedbCloudflare.Benchmark
