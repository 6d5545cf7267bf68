import SlatedbCloudflare.Driver.Seeded
import SlatedbCloudflare.Library.Sharing
import Mathlib.Data.List.Nodup

/-! # Counted phases

A counted phase shares its operations between the clients of the driver by a common
index. The default profile seeds its databases so, and then reads every record once.
-/
namespace SlatedbCloudflare.Benchmark
open Programs Locks ObjectStore Utf8 Histories Instance Sharing

structure Sample where
  latencyMs : ℕ
  error : Option String

namespace Config
variable (config : Config)

def putSeed (index : ℕ) : Request :=
  ⟨config.database (index % config.databases),.ok (.put (seedKey (index / config.databases)) config.value)⟩

def getSeed (index : ℕ) : Request :=
  ⟨config.database (index % config.databases),.ok (.get (seedKey (index / config.databases)))⟩

abbrev counted (count : ℕ) : WorkerPool (Fin (min config.concurrency count)) Sample := workers count

abbrev RunsCounted (possible : ℕ → Sample → Prop) (count : ℕ)
    (es : List (Event (Fin (min config.concurrency count)) (Shared Sample) Work (Work.Reply Sample)))
    (T : WorkerPool (Fin (min config.concurrency count)) Sample) : Prop :=
  Run (Sharing.serve possible) (config.counted count) es T

def sampled {count : ℕ} (T : WorkerPool (Fin (min config.concurrency count)) Sample) : List ℕ := T.state.done.map Prod.fst

variable {config} {possible : ℕ → Sample → Prop} {count : ℕ}
  {es : List (Event (Fin (min config.concurrency count)) (Shared Sample) Work (Work.Reply Sample))}
  {T : WorkerPool (Fin (min config.concurrency count)) Sample}

/-- Where an index falls in the databases and their records. -/
theorem indices_perm {databases records : ℕ} (hdatabases : 0 < databases) :
    ((List.range (databases * records)).map fun index => (index % databases,index / databases)).Perm
      (List.range databases ×ˢ List.range records) := by
  have hinj : Function.Injective fun index : ℕ => (index % databases,index / databases) := by
    intro i j h
    have hmod : i % databases = j % databases := congrArg Prod.fst h
    have hdiv : i / databases = j / databases := congrArg Prod.snd h
    rw [← Nat.mod_add_div i databases, ← Nat.mod_add_div j databases, hmod, hdiv]
  apply (List.perm_ext_iff_of_nodup (List.nodup_range.map hinj) (List.nodup_range.product List.nodup_range)).mpr
  rintro ⟨d,record⟩
  rw [List.mem_map, List.mem_product, List.mem_range, List.mem_range]
  constructor
  · rintro ⟨index,hindex,heq⟩
    cases heq
    exact ⟨Nat.mod_lt _ hdatabases,Nat.div_lt_of_lt_mul (List.mem_range.mp hindex)⟩
  · rintro ⟨hd,hrecord⟩
    refine ⟨d + databases * record,?_,?_⟩
    · rw [List.mem_range]
      calc d + databases * record < databases + databases * record := by omega
        _ = databases * (record + 1) := by rw [Nat.mul_succ, Nat.add_comm]
        _ ≤ databases * records := Nat.mul_le_mul_left _ hrecord
    · rw [Nat.add_mul_mod_self_left, Nat.mod_eq_of_lt hd, Nat.add_mul_div_left _ _ hdatabases, Nat.div_eq_of_lt hd,
        Nat.zero_add]

end Config

/-- A counted phase, for every order in which its operations end. -/
structure CountsOnce (config : Config) (count : ℕ) : Prop where
  once : ∀ possible es T, config.RunsCounted possible count es T →
    (config.sampled T).Nodup ∧ ∀ index ∈ config.sampled T, index < count
  complete : ∀ possible es T, config.RunsCounted possible count es T → (∀ i, T.thread i = .ok ()) →
    (config.sampled T).Perm (List.range count)
  terminates : ∀ possible es T, config.RunsCounted possible count es T → es.length ≤ 2 * count + config.concurrency ∧
    ∀ i, T.thread i = .ok () ∨ ∃ r k, T.thread i = .call (.act r) k

section Phases
variable {config : Config} {possible : ℕ → Sample → Prop} {count : ℕ}
  {es : List (Event (Fin (min config.concurrency count)) (Shared Sample) Work (Work.Reply Sample))}
  {T : WorkerPool (Fin (min config.concurrency count)) Sample}

theorem sampled_perm (h : config.RunsCounted possible count es T) (hall : ∀ i, T.thread i = .ok ()) :
    (config.sampled T).Perm (List.range count) := by
  refine (shares_of_run h).complete ?_ hall
  by_cases hcount : count = 0
  · exact .inl hcount
  · have hconcurrency := config.concurrency_bounds.1
    exact .inr ⟨⟨0,by omega⟩⟩

theorem countsOnce (config : Config) (count : ℕ) : CountsOnce config count := by
  refine ⟨fun possible es T h => (shares_of_run h).once,fun possible es T h hall => sampled_perm h hall,?_⟩
  intro possible es T h
  obtain ⟨hnext,hdone⟩ := (shares_of_run h).bounded
  have hlength := length_of_run h ⟨rfl,rfl⟩
  rw [Fintype.card_fin] at hnext
  exact ⟨by omega,(shares_of_run h).waiting⟩

end Phases

/-- The counted phases of the default profile: the seeding, and the reads after it. -/
structure CoversRecords (config : Config) : Prop where
  phases : ∀ count, CountsOnce config count
  /-- The seeding puts every record into every database once. -/
  puts : ∀ possible es T, config.RunsCounted possible (config.databases * config.records) es T →
    (∀ i, T.thread i = .ok ()) → ((config.sampled T).map config.putSeed).Perm
      ((List.range config.databases ×ˢ List.range config.records).map fun x =>
        ⟨config.database x.1,.ok (.put (seedKey x.2) config.value)⟩)
  /-- The reads ask every database for every record once. -/
  gets : ∀ possible es T, config.RunsCounted possible (config.databases * config.records) es T →
    (∀ i, T.thread i = .ok ()) → ((config.sampled T).map config.getSeed).Perm
      ((List.range config.databases ×ˢ List.range config.records).map fun x =>
        ⟨config.database x.1,.ok (.get (seedKey x.2))⟩)

/-- Whatever the order in which they end, the operations of a counted phase are made once
each, and those of the default profile cover all records of all databases. -/
theorem counted_phases (config : Config) (hdatabases : 0 < config.databases) : CoversRecords config := by
  have hcover : ∀ {possible es T}, config.RunsCounted possible (config.databases * config.records) es T →
      (∀ i, T.thread i = .ok ()) → ∀ request : ℕ × ℕ → Request,
        ((config.sampled T).map fun index => request (index % config.databases,index / config.databases)).Perm
          ((List.range config.databases ×ˢ List.range config.records).map request) := by
    intro possible es T h hall request
    have hpairs := ((sampled_perm h hall).map fun index => (index % config.databases,index / config.databases)).trans
      (Config.indices_perm hdatabases)
    have hrequests := hpairs.map request
    rwa [List.map_map] at hrequests
  refine ⟨countsOnce config,?_,?_⟩
  · exact fun _ _ _ h hall => hcover h hall fun x => ⟨config.database x.1,.ok (.put (seedKey x.2) config.value)⟩
  · exact fun _ _ _ h hall => hcover h hall fun x => ⟨config.database x.1,.ok (.get (seedKey x.2))⟩

def pairConfig : Config := ⟨"bench",2,2,2,4,"x",by decide,by decide,by decide⟩

theorem pair_counted : ∃ es T, pairConfig.RunsCounted (fun _ _ => True) 4 es T ∧ (∀ i, T.thread i = .ok ()) ∧
    pairConfig.sampled T = [1,2,3,0] := by
  let first : Fin (min pairConfig.concurrency 4) := ⟨0,by decide⟩
  let second : Fin (min pairConfig.concurrency 4) := ⟨1,by decide⟩
  have hne : second ≠ first := by decide
  have htakes : Consumes (free (worker 4 5) : Thread Sample) [⟨.act .take,(0 : ℕ)⟩] []
      (.call (.act (.perform 0)) fun _ => free (worker 4 4)) := .call (.refl _)
  have hperforms : Consumes (free (worker 4 5) : Thread Sample)
      [⟨.act .take,(1 : ℕ)⟩,⟨.act (.perform 1),⟨0,none⟩⟩,⟨.act .take,(2 : ℕ)⟩,⟨.act (.perform 2),⟨0,none⟩⟩,
        ⟨.act .take,(3 : ℕ)⟩,⟨.act (.perform 3),⟨0,none⟩⟩,⟨.act .take,(4 : ℕ)⟩] [] (.ok ()) :=
    .call (.call (.call (.call (.call (.call (.call (.refl _)))))))
  have hends : Consumes (.call (.act (.perform 0)) fun _ => free (worker 4 4) : Thread Sample)
      [⟨.act (.perform 0),⟨0,none⟩⟩,⟨.act .take,(5 : ℕ)⟩] [] (.ok ()) := .call (.call (.refl _))
  have htake : ∀ (i : Fin (min pairConfig.concurrency 4)) (n : ℕ) (done : List (ℕ × Sample)),
      Alone (Sharing.serve fun _ _ => True) i (⟨n,done⟩,none) (.act .take) n (⟨n + 1,done⟩,none) :=
    fun _ _ _ => ⟨⟨rfl,rfl⟩,rfl⟩
  have hperform : ∀ (i : Fin (min pairConfig.concurrency 4)) (n : ℕ) (done : List (ℕ × Sample)) (index : ℕ),
      Alone (Sharing.serve fun _ _ => True) i (⟨n,done⟩,none) (.act (.perform index)) (⟨0,none⟩ : Sample)
        (⟨n,done ++ [(index,⟨0,none⟩)]⟩,none) := fun _ _ _ _ => ⟨⟨trivial,rfl⟩,rfl⟩
  let S : WorkerPool (Fin (min pairConfig.concurrency 4)) Sample := ⟨⟨1,[]⟩,none,
    Function.update (pairConfig.counted 4).thread first (.call (.act (.perform 0)) fun _ => free (worker 4 4))⟩
  let T : WorkerPool (Fin (min pairConfig.concurrency 4)) Sample :=
    ⟨⟨5,[(1,⟨0,none⟩),(2,⟨0,none⟩),(3,⟨0,none⟩)]⟩,none,Function.update S.thread second (.ok ())⟩
  have hsecond : S.thread second = free (worker 4 5) := by
    simp [S, hne, workers, start]
  have hfirst : T.thread first = .call (.act (.perform 0)) fun _ => free (worker 4 4) := by
    simp [T, S, hne.symm]
  obtain ⟨es₁,hrun₁⟩ := Run.alone htakes (S := pairConfig.counted 4) (i := first) rfl (.cons (htake first 0 []) (.nil _))
  obtain ⟨es₂,hrun₂⟩ := Run.alone hperforms (S := S) hsecond
    (.cons (htake second 1 _) (.cons (hperform second 2 _ 1) (.cons (htake second 2 _) (.cons (hperform second 3 _ 2)
      (.cons (htake second 3 _) (.cons (hperform second 4 _ 3) (.cons (htake second 4 _) (.nil _))))))))
  obtain ⟨es₃,hrun₃⟩ := Run.alone hends (S := T) hfirst
    (.cons (hperform first 5 _ 0) (.cons (htake first 5 _) (.nil _)))
  refine ⟨_,_,(hrun₁.trans hrun₂).trans hrun₃,fun i => ?_,rfl⟩
  have hcases : i = first ∨ i = second := by
    revert i
    decide
  rcases hcases with rfl | rfl
  · simp
  · simp [T, hne]

/-- Two clients share the records of two databases. -/
theorem counted_phases_pair : CoversRecords pairConfig ∧ ∃ es T, pairConfig.RunsCounted (fun _ _ => True) 4 es T ∧
    ∀ i, T.thread i = .ok () := by
  obtain ⟨es,T,hrun,hall,_⟩ := pair_counted
  exact ⟨counted_phases pairConfig (by decide),es,T,hrun,hall⟩

section Instances
variable {ι Own : Type} {Returned : Own → Type} {Out Adapter : Type} {config : Config} {d : ℕ} {requests : ι → Request}
  {S : Pool ι World (Op Own) (Reply Returned) Out AppError (Answer Adapter)}

/-- What a put of the seeding may report: without an error, the instance has answered it. -/
def PutReported (config : Config) (d : ℕ) (requests : ι → Request)
    (S : Pool ι World (Op Own) (Reply Returned) Out AppError (Answer Adapter)) (index : ℕ) (sample : Sample) : Prop :=
  index % config.databases = d → sample.error = none → ∃ i a, requests i = config.putSeed index ∧ S.thread i = .ok a

/-- The seeding has ended without errors. -/
def CountedSeeded (config : Config) (d : ℕ) (requests : ι → Request)
    (S : Pool ι World (Op Own) (Reply Returned) Out AppError (Answer Adapter)) : Prop :=
  ∃ es T, config.RunsCounted (PutReported config d requests S) (config.databases * config.records) es T ∧
    (∀ i, T.thread i = .ok ()) ∧ ∀ x ∈ T.state.done, x.2.error = none

theorem CountedSeeded.stored (h : CountedSeeded config d requests S) (hd : d < config.databases) {record : ℕ}
    (hrecord : record < config.records) : Stored requests S (seedKey record) := by
  obtain ⟨es,T,hrun,hall,hfine⟩ := h
  have hcover := (sampled_perm hrun hall).map fun index => (index % config.databases,index / config.databases)
  have hmem : (d,record) ∈ (config.sampled T).map fun index => (index % config.databases,index / config.databases) := by
    rw [(hcover.trans (Config.indices_perm (by omega))).mem_iff, List.mem_product, List.mem_range, List.mem_range]
    exact ⟨hd,hrecord⟩
  obtain ⟨index,hindex,heq⟩ := List.mem_map.mp hmem
  obtain ⟨x,hx,rfl⟩ := List.mem_map.mp hindex
  obtain ⟨i,a,hi,ha⟩ := possible_of_run hrun rfl x hx (congrArg Prod.fst heq) (hfine x hx)
  have hkey : x.1 / config.databases = record := congrArg Prod.snd heq
  refine ⟨i,a,_,ha,congrArg Request.call hi,?_⟩
  rw [hkey]
  exact rfl

end Instances

section Services
variable (L : DoCache.LocalCacheHead) {ι : Type} [DecidableEq ι] (texts : String → List (Write String String))
  (schedules : ι → List ℕ) (requests : ι → Request) (config : Config) (d : ℕ)

/-- Every read of a seeded key that the instance began after the events `es` and has answered
found a value. -/
def ReadsFound {Own : Type} {Returned : Own → Type} {Out Adapter : Type} (config : Config) (requests : ι → Request)
    (es : Events ι Returned) (T : Pool ι World (Op Own) (Reply Returned) Out AppError (Answer Adapter)) : Prop :=
  ∀ i, ∀ record < config.records, ∀ a, (requests i).call = .ok (.get (seedKey record)) → own i es = [] →
    T.thread i = .ok a → ∃ value, a = .value (seedKey record) (some value)

/-- Whatever else an instance is asked for but to delete, after the counted seeding of the
default profile no read misses a seeded key. -/
theorem reads_after_seeding (hd : d < config.databases) (hvalid : ValidDatabaseName (config.database d))
    (hname : ∀ i, (requests i).database = config.database d)
    (hcalls : ∀ i call, (requests i).call = .ok call → call.Spares) :
    (∀ es S es' T, Run Acts (objectPool L texts schedules requests) es S → Run Acts S es' T →
      OpensBeforeFailures ((es ++ es').map (Event.map World.slot)) → CountedSeeded config d requests S →
        ReadsFound config requests es T) ∧
    (∀ es S es' T, Run Acts (processPool texts schedules requests) es S → Run Acts S es' T →
      OpensBeforeFailures ((es ++ es').map (Event.map World.slot)) → CountedSeeded config d requests S →
        ReadsFound config requests es T) := by
  constructor
  · intro es S es' T h h' hopen hseeded i record hrecord a hcall hown ha
    exact (object_finds hvalid hname hcalls h h' hopen).values i _ a hown hcall (hseeded.stored hd hrecord) ha
  · intro es S es' T h h' hopen hseeded i record hrecord a hcall hown ha
    exact (process_finds hvalid hname hcalls h h' hopen).values i _ a hown hcall (hseeded.stored hd hrecord) ha

end Services

section Witnesses

theorem small_counted {Own : Type} {Returned : Own → Type} {Out Adapter : Type}
    {S : Pool Bool World (Op Own) (Reply Returned) Out AppError (Answer Adapter)} {a : Answer Adapter}
    (h : S.thread false = .ok a) :
    CountedSeeded smallConfig.toConfig 0 (storeAndFetchOn "bench-0" "seed-00000000" "x") S := by
  have hname : smallConfig.database 0 = "bench-0" := by decide
  have hkey : seedKey 0 = "seed-00000000" := by decide
  have hput : PutReported smallConfig.toConfig 0 (storeAndFetchOn "bench-0" "seed-00000000" "x") S 0 ⟨0,none⟩ := by
    intro _ _
    refine ⟨false,a,?_,h⟩
    change _ = (⟨smallConfig.database 0,.ok (.put (seedKey 0) "x")⟩ : Request)
    rw [hname, hkey]
    exact rfl
  let i : Fin (min smallConfig.concurrency 1) := ⟨0,by decide⟩
  have hworker : Consumes (free (worker 1 2) : Thread Sample)
      [⟨.act .take,(0 : ℕ)⟩,⟨.act (.perform 0),⟨0,none⟩⟩,⟨.act .take,(1 : ℕ)⟩] [] (.ok ()) :=
    .call (.call (.call (.refl _)))
  have hchain : Chain (Alone (Sharing.serve
      (PutReported smallConfig.toConfig 0 (storeAndFetchOn "bench-0" "seed-00000000" "x") S)) i) (⟨0,[]⟩,none)
      [⟨.act .take,(0 : ℕ)⟩,⟨.act (.perform 0),⟨0,none⟩⟩,⟨.act .take,(1 : ℕ)⟩] (⟨2,[(0,⟨0,none⟩)]⟩,none) := by
    refine .cons (u := (⟨1,[]⟩,none)) ⟨⟨rfl,rfl⟩,rfl⟩ ?_
    refine .cons (u := (⟨1,[(0,⟨0,none⟩)]⟩,none)) ⟨⟨hput,rfl⟩,rfl⟩ ?_
    exact .cons ⟨⟨rfl,rfl⟩,rfl⟩ (.nil _)
  obtain ⟨es,hrun⟩ := Run.alone hworker (S := smallConfig.counted 1) rfl hchain
  refine ⟨es,_,hrun,fun j => ?_,?_⟩
  · have hj : j = i := by
      have hlt : j.val < 1 := j.isLt
      apply Fin.ext
      change j.val = 0
      omega
    subst hj
    simp
  · intro x hx
    cases List.mem_singleton.mp hx
    exact rfl

/-- The one record of the one database is read after it was put, from either service. -/
theorem reads_after_seeding_small :
    (∃ es S es' T, Run Acts (objectPool DoCache.LocalCacheHead.plain (fun _ => []) (fun _ => [])
        (storeAndFetchOn "bench-0" "seed-00000000" "x")) es S ∧ Run Acts S es' T ∧
      T.thread true = .ok (.value "seed-00000000" (some "x")) ∧
      ReadsFound smallConfig.toConfig (storeAndFetchOn "bench-0" "seed-00000000" "x") es T) ∧
    (∃ es S es' T, Run Acts (processPool (fun _ => []) (fun _ => [])
        (storeAndFetchOn "bench-0" "seed-00000000" "x")) es S ∧ Run Acts S es' T ∧
      T.thread true = .ok (.value "seed-00000000" (some "x")) ∧
      ReadsFound smallConfig.toConfig (storeAndFetchOn "bench-0" "seed-00000000" "x") es T) := by
  have hname : smallConfig.database 0 = "bench-0" := by decide
  have hvalid : ValidDatabaseName "bench-0" := by decide
  have hcalls : ∀ i call, (storeAndFetchOn "bench-0" "seed-00000000" "x" i).call = .ok call → call.Spares := by
    rintro (_ | _) call ⟨⟩ <;> trivial
  obtain ⟨hobject,hprocess⟩ := reads_after_seeding DoCache.LocalCacheHead.plain (fun _ => []) (fun _ => [])
    (storeAndFetchOn "bench-0" "seed-00000000" "x") smallConfig.toConfig 0 (by decide) (hname ▸ hvalid)
    (fun _ => hname.symm) hcalls
  constructor
  · obtain ⟨es,S,es',T,hfirst,hrest,hopen,hdone,hvalue,_⟩ := object_stored hvalid "seed-00000000" "x"
    exact ⟨es,S,es',T,hfirst,hrest,hvalue,hobject es S es' T hfirst hrest hopen (small_counted hdone)⟩
  · obtain ⟨es,S,es',T,hfirst,hrest,hopen,hdone,hvalue,_⟩ := process_stored hvalid "seed-00000000" "x"
    exact ⟨es,S,es',T,hfirst,hrest,hvalue,hprocess es S es' T hfirst hrest hopen (small_counted hdone)⟩

end Witnesses

end SlatedbCloudflare.Benchmark
