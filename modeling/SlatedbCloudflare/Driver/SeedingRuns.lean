import SlatedbCloudflare.Driver.Seeding
import SlatedbCloudflare.Instance.Batches
import SlatedbCloudflare.Library.Traversals

/-! # What balanced seeding writes

A task's requests carry consecutive records from the first on, and one that has
fulfilled has sent them all. This holds whatever order the replies arrive in.
-/
namespace SlatedbCloudflare.Benchmark
open Programs Tasks Instance Locks Utf8

theorem padStart_inj {length m n : ℕ}
    (h : padStart length '0' (toString m) = padStart length '0' (toString n)) : m = n := by
  have hvalue : ∀ k, Nat.ofDigitChars 10 (padStart length '0' (toString k)).toList 0 = k := by
    intro k
    rw [padStart, String.toList_append, String.toList_ofList, Framing.toList_toString, Nat.ofDigitChars_append,
      Nat.ofDigitChars_replicate_zero, Nat.mul_zero, Nat.ofDigitChars_ten_toDigits]
  rw [← hvalue m, ← hvalue n, h]

theorem seedKey_inj {m n : ℕ} (h : seedKey m = seedKey n) : m = n := by
  have htoList := congrArg String.toList h
  rw [seedKey, seedKey, String.toList_append, String.toList_append] at htoList
  exact padStart_inj (String.toList_inj.mp (List.append_cancel_left htoList))

theorem seedOperation_inj : Function.Injective seedOperation :=
  fun _ _ h => seedKey_inj (congrArg BenchmarkOperation.key h)

theorem putsIn_seed (next count : ℕ) : putsIn ((List.range' next count).map seedOperation) = count := by
  have hall : ∀ o ∈ (List.range' next count).map seedOperation, decide (o.operation = .put) = true := by
    intro o ho
    obtain ⟨record,_,rfl⟩ := List.mem_map.mp ho
    rfl
  rw [putsIn, List.countP_eq_length.mpr hall, List.length_map, List.length_range']

variable {spread : ℕ} {target source merged : EmbeddedMeasurements}

theorem mergeEmbedded_ok (h : mergeEmbedded spread target source = .ok merged) :
    source.measurableLatencyNs.length ≤ spread ∧ merged = target.merge source := by
  unfold mergeEmbedded at h
  split_ifs at h with hspread
  cases h
  exact ⟨hspread,rfl⟩

theorem mergeEmbedded_fits (h : source.measurableLatencyNs.length ≤ spread) :
    mergeEmbedded spread target source = .ok (target.merge source) := by
  unfold mergeEmbedded
  exact if_pos h

/-- Measurements of no more operations than the engine spreads can be merged, however many
there are of them. -/
theorem measures_merged {l : List EmbeddedMeasurements} {n k : ℕ} (hspread : n ≤ spread) (ht : Measures target k)
    (hl : ∀ m ∈ l, Measures m n) :
    ∃ total, l.foldlM (mergeEmbedded spread) target = .ok total ∧ Measures total (k + l.length * n) := by
  induction l generalizing target k with
  | nil => exact ⟨target,rfl,by simpa using ht⟩
  | cons m l ih =>
    obtain ⟨hm,hl⟩ := List.forall_mem_cons.mp hl
    have hfits : m.measurableLatencyNs.length ≤ spread := hm.latencies_le.trans hspread
    rw [List.foldlM_cons, mergeEmbedded_fits hfits, List.length_cons, Nat.succ_mul, Nat.add_comm (l.length * n),
      ← Nat.add_assoc]
    exact ih (ht.merge hm) hl

/-- A loop of merges that ends has spread each source. -/
theorem foldlM_merged {l : List EmbeddedMeasurements} {total : EmbeddedMeasurements}
    (h : l.foldlM (mergeEmbedded spread) target = .ok total) : ∀ m ∈ l, m.measurableLatencyNs.length ≤ spread := by
  induction l generalizing target with
  | nil => simp
  | cons m l ih =>
    obtain ⟨merged,hm,hrest⟩ := Traversals.bind_ok.mp (List.foldlM_cons.symm.trans h)
    exact List.forall_mem_cons.mpr ⟨(mergeEmbedded_ok hm).1,ih hrest⟩

namespace Config
variable {config : Config} {database : String} {next : ℕ} {m : EmbeddedMeasurements}

theorem database_inj {i j : ℕ} (h : config.database i = config.database j) : i = j := by
  have htoList := congrArg String.toList h
  simp only [Config.database, String.toList_append, Framing.toList_toString] at htoList
  have hdigits := congrArg (fun l => Nat.ofDigitChars 10 l 0) (List.append_cancel_left htoList)
  simpa using hdigits

theorem batch_induct (config : Config) {P : ℕ → Prop} (hdone : ∀ next, config.records ≤ next → P next)
    (hbatch : ∀ next, next < config.records → P (next + config.batchCount next) → P next) (next : ℕ) : P next := by
  induction hleft : config.records - next using Nat.strong_induction_on generalizing next with
  | h left ih =>
    subst hleft
    by_cases h : next < config.records
    · have hpos := batchCount_pos h
      exact hbatch next h (ih _ (by omega) _ rfl)
    · exact hdone next (Nat.le_of_not_lt h)

def batchFrom (config : Config) (database : String) (next : ℕ) : BatchRequest :=
  ⟨database,(config.nextBatch next).1,config.value⟩

theorem seedFrom_done (h : config.records ≤ next) : config.seedFrom spread database next m = .ok m := by
  rw [seedFrom, dif_neg (Nat.not_lt.mpr h)]

theorem seedFrom_batch (h : next < config.records) : config.seedFrom spread database next m =
    .call (config.batchFrom database next) (fun reply => Prog.orElse reply .err >>= fun response =>
      Prog.orElse (mergeEmbedded spread m response.put) .err >>= fun merged =>
        config.seedFrom spread database (next + config.batchCount next) merged) := by
  rw [seedFrom, dif_pos h]
  simp only [nextBatch_next]
  rfl

/-- The requests cover `count` records from `next` on, each once. -/
structure Sends (config : Config) (database : String) (next : ℕ) (requests : List BatchRequest) (count : ℕ) :
    Prop where
  records : requests.flatMap (fun r => r.clients.flatten) = (List.range' next count).map seedOperation
  fits : next + count ≤ config.records
  each : ∀ r ∈ requests, r.database = database ∧ r.value = config.value ∧ ValidBatch r.clients

theorem Sends.nil (h : next ≤ config.records) : Sends config database next [] 0 := ⟨rfl,h,by simp⟩

theorem Sends.cons (h : next < config.records) {requests : List BatchRequest} {count : ℕ}
    (hs : Sends config database (next + config.batchCount next) requests count) :
    Sends config database next (config.batchFrom database next :: requests) (config.batchCount next + count) := by
  refine ⟨?_,?_,?_⟩
  · rw [List.flatMap_cons, hs.records, ← List.range'_append_1, List.map_append]
    congr 1
    exact config.nextBatch_flatten next
  · have hfits := hs.fits
    omega
  · intro r hr
    rcases List.mem_cons.mp hr with rfl | hr
    · exact ⟨rfl,rfl,nextBatch_valid h⟩
    · exact hs.each r hr

theorem batchCount_le (h : next < config.records) : next + config.batchCount next ≤ config.records := by
  unfold batchCount
  omega

variable {tr : List ((r : BatchRequest) × BatchReply r)} {os : List Empty}

theorem seedFrom_consumes {q : Task BatchRequest BatchReply String EmbeddedMeasurements}
    (h : Consumes (config.seedFrom spread database next m) tr os q) (hnext : next ≤ config.records) :
    ∃ count, Sends config database next (tr.map Sigma.fst ++ pending q) count ∧
      ∀ m', q = .ok m' → next + count = config.records := by
  induction next using batch_induct config generalizing m tr os with
  | hdone next hle =>
    rw [seedFrom_done hle] at h
    cases h
    exact ⟨0,.nil hnext,fun _ _ => Nat.le_antisymm hnext hle⟩
  | hbatch next hlt ih =>
    have hle := batchCount_le hlt
    rw [seedFrom_batch hlt] at h
    cases h with
    | refl => exact ⟨_,.cons hlt (.nil hle),fun _ hq => by cases hq⟩
    | @call _ reply _ _ _ _ h =>
      cases reply with
      | error e =>
        cases h
        exact ⟨_,.cons hlt (.nil hle),fun _ hq => by cases hq⟩
      | ok response =>
        change Consumes (Prog.orElse (mergeEmbedded spread m response.put) .err >>= _) _ _ _ at h
        cases hmerge : mergeEmbedded spread m response.put with
        | error e =>
          rw [hmerge] at h
          cases h
          exact ⟨_,.cons hlt (.nil hle),fun _ hq => by cases hq⟩
        | ok merged =>
          rw [hmerge] at h
          obtain ⟨count,hsends,hall⟩ := ih h hle
          exact ⟨_,hsends.cons hlt,fun m' hq => by rw [← hall m' hq, Nat.add_assoc]⟩

/-- One reply for each record at most. -/
theorem seedFrom_within : Within (config.records - next) (config.seedFrom spread database next m) := by
  induction next using batch_induct config generalizing m with
  | hdone next hle =>
    rw [seedFrom_done hle]
    exact within_ok _ _
  | hbatch next hlt ih =>
    have hpos := batchCount_pos hlt
    obtain ⟨left,hleft⟩ : ∃ left, config.records - next = left + 1 := ⟨config.records - next - 1,by omega⟩
    rw [seedFrom_batch hlt, hleft]
    intro reply
    cases reply with
    | error e => exact within_err _ _
    | ok response =>
      have hle : config.records - (next + config.batchCount next) ≤ left := by omega
      change Within left (Prog.orElse (mergeEmbedded spread m response.put) .err >>= _)
      cases mergeEmbedded spread m response.put with
      | error e => exact within_err _ _
      | ok merged => exact ih.mono hle

theorem measures_batch {response : BenchmarkBatchResponse}
    (h : Measures response.put (putsIn (config.batchFrom database next).clients.flatten)) :
    Measures response.put (config.batchCount next) := by
  rwa [batchFrom, nextBatch_flatten, putsIn_seed] at h

/-- A task that fulfilled has merged the measurements of all its records. -/
theorem seedFrom_fulfilled {m' : EmbeddedMeasurements} {n : ℕ}
    (h : Returns (config.seedFrom spread database next m) tr os (.ok m')) (hm : Measures m n)
    (hserved : ∀ x ∈ tr, ∀ response, x.2 = .ok response → Measures response.put (putsIn x.1.clients.flatten)) :
    Measures m' (n + (config.records - next)) := by
  induction next using batch_induct config generalizing m tr os n with
  | hdone next hle =>
    rw [seedFrom_done hle] at h
    obtain ⟨_,_,hm'⟩ := h.of_ok
    cases hm'
    rwa [Nat.sub_eq_zero_of_le hle]
  | hbatch next hlt ih =>
    rw [seedFrom_batch hlt] at h
    obtain ⟨reply,tr₁,rfl,hreply⟩ := h.of_call
    obtain ⟨response,rfl,hmerge⟩ := hreply.of_orElse
    obtain ⟨merged,hmerged,hrest⟩ := hmerge.of_orElse
    obtain ⟨_,rfl⟩ := mergeEmbedded_ok hmerged
    obtain ⟨hfirst,hserved⟩ := List.forall_mem_cons.mp hserved
    have hput := measures_batch (hfirst response rfl)
    have hle := batchCount_le hlt
    have hcount : n + (config.records - next) =
        n + config.batchCount next + (config.records - (next + config.batchCount next)) := by omega
    rw [hcount]
    exact ih hrest (hm.merge hput) hserved

/-- A task that fulfilled holds every latency it was sent. -/
theorem seedFrom_latencies {m' : EmbeddedMeasurements}
    (h : Returns (config.seedFrom spread database next m) tr os (.ok m'))
    (hall : ∀ x ∈ tr, ∀ response, x.2 = .ok response →
      response.put.measurableLatencyNs.length = x.1.clients.flatten.length) :
    m'.measurableLatencyNs.length = m.measurableLatencyNs.length + (config.records - next) := by
  induction next using batch_induct config generalizing m tr os with
  | hdone next hle =>
    rw [seedFrom_done hle] at h
    obtain ⟨_,_,hm'⟩ := h.of_ok
    cases hm'
    omega
  | hbatch next hlt ih =>
    rw [seedFrom_batch hlt] at h
    obtain ⟨reply,tr₁,rfl,hreply⟩ := h.of_call
    obtain ⟨response,rfl,hmerge⟩ := hreply.of_orElse
    obtain ⟨merged,hmerged,hrest⟩ := hmerge.of_orElse
    obtain ⟨_,rfl⟩ := mergeEmbedded_ok hmerged
    obtain ⟨hfirst,hall⟩ := List.forall_mem_cons.mp hall
    have hone : response.put.measurableLatencyNs.length = config.batchCount next := by
      rw [hfirst response rfl, batchFrom, nextBatch_flatten, List.length_map, List.length_range']
    have hle := batchCount_le hlt
    rw [ih hrest hall, BenchmarkOperationMeasurements.merge, List.length_append, hone]
    omega

/-- Where the engine spreads the latencies of all records, a task is rejected by the failure
of one of its requests. -/
theorem seedFrom_rejected {e : String} (hspread : config.records ≤ spread)
    (h : Returns (config.seedFrom spread database next m) tr os (.error e))
    (hserved : ∀ x ∈ tr, ∀ response, x.2 = .ok response → Measures response.put (putsIn x.1.clients.flatten)) :
    ∃ x ∈ tr, x.2 = .error e := by
  induction next using batch_induct config generalizing m tr os with
  | hdone next hle =>
    rw [seedFrom_done hle] at h
    obtain ⟨_,_,he⟩ := h.of_ok
    cases he
  | hbatch next hlt ih =>
    rw [seedFrom_batch hlt] at h
    obtain ⟨reply,tr₁,rfl,hreply⟩ := h.of_call
    cases reply with
    | error e' =>
      obtain ⟨rfl,_,he⟩ := hreply.of_err
      cases he
      exact ⟨_,List.mem_cons_self,rfl⟩
    | ok response =>
      obtain ⟨hfirst,hserved⟩ := List.forall_mem_cons.mp hserved
      have hput := measures_batch (hfirst response rfl)
      have hcount : config.batchCount next ≤ spread := (Nat.le_add_left _ _).trans ((batchCount_le hlt).trans hspread)
      have hmerged : mergeEmbedded spread m response.put = .ok (m.merge response.put) :=
        mergeEmbedded_fits (hput.latencies_le.trans hcount)
      change Returns (Prog.orElse (mergeEmbedded spread m response.put) .err >>= _) _ _ _ at hreply
      rw [hmerged] at hreply
      obtain ⟨x,hx,he⟩ := ih hreply hserved
      exact ⟨x,List.mem_cons_of_mem _ hx,he⟩

end Config

section Runs
variable {Own : Type} {Returned : Own → Type} {Out Adapter : Type}

/-- A reply is a failure, or the answer of the service to the batch. -/
def Answers (handle : Request → HandlerM Returned Out (Answer Adapter)) (r : BatchRequest) : BatchReply r → Prop
  | .error _ => True
  | .ok response => ∃ tr os,
    Returns (handle ⟨r.database,.ok (.benchmarkBatch r.value r.clients)⟩) tr os (.ok (.batch response))

def sentTo (config : Config) (es : List (Arrival (Fin config.databases) BatchRequest BatchReply))
    (tasks : Fin config.databases → Task BatchRequest BatchReply String EmbeddedMeasurements) (database : String) :
    List BenchmarkOperation :=
  (List.finRange config.databases).flatMap fun index =>
    ((sent es tasks index).filter (fun r => r.database = database)).flatMap (fun r => r.clients.flatten)

/-- What balanced seeding sends, for every order in which the replies arrive. -/
structure SendsBalanced (spread : ℕ) (config : Config) (handle : Request → HandlerM Returned Out (Answer Adapter)) :
    Prop where
  terminates : ∀ es tasks, Run (Answers handle) (config.seedTasks spread) es tasks →
    es.length ≤ config.databases * config.records ∧
      ∀ index, (∃ r, tasks index = .ofResult r) ∨ ∃ r, pending (tasks index) = [r]
  accepted : ∀ es tasks, Run (Answers handle) (config.seedTasks spread) es tasks →
    ∀ index, ∀ r ∈ sent es tasks index, ValidBatch r.clients
  once : ∀ es tasks, Run (Answers handle) (config.seedTasks spread) es tasks → ∀ database,
    (sentTo config es tasks database).Nodup ∧
      ∀ o ∈ sentTo config es tasks database, ∃ record < config.records, o = seedOperation record

/-- The balanced seeding of a service: where every batch succeeds, all records have been
written and measured at its end. -/
structure SeedsBalanced (spread : ℕ) (config : Config) (handle : Request → HandlerM Returned Out (Answer Adapter)) :
    Prop extends SendsBalanced spread config handle where
  complete : ∀ es tasks, Run (Answers handle) (config.seedTasks spread) es tasks →
    (∀ index, ∃ r, tasks index = .ofResult r) → (∀ e ∈ es, ∃ response, e.reply = .ok response) →
      (∀ index : Fin config.databases, ∀ record < config.records, ∃ e ∈ es, e.req.database = config.database index ∧
        ∃ response tr os, e.reply = .ok response ∧
          Returns (handle ⟨e.req.database,.ok (.benchmarkBatch e.req.value e.req.clients)⟩) tr os
            (.ok (.batch response)) ∧ Received tr (config.database index) (seedKey record) config.value) ∧
      ∃ m, config.seedBalanced spread tasks = some m ∧ Measures m (config.databases * config.records)

variable {config : Config} {handle : Request → HandlerM Returned Out (Answer Adapter)}
  {es : List (Arrival (Fin config.databases) BatchRequest BatchReply)}
  {tasks : Fin config.databases → Task BatchRequest BatchReply String EmbeddedMeasurements}

theorem sends_of_run (h : Run (Answers handle) (config.seedTasks spread) es tasks) (index : Fin config.databases) :
    ∃ count, config.Sends (config.database index) 0 (sent es tasks index) count ∧
      ∀ m, tasks index = .ok m → count = config.records := by
  obtain ⟨count,hsends,hall⟩ := Config.seedFrom_consumes (h.consumes index) (Nat.zero_le _)
  refine ⟨count,hsends,?_⟩
  intro m hm
  rw [← hall m hm, Nat.zero_add]

theorem sentTo_part (h : Run (Answers handle) (config.seedTasks spread) es tasks) (index : Fin config.databases)
    (database : String) : ∃ count ≤ config.records,
      ((sent es tasks index).filter (fun r => r.database = database)).flatMap (fun r => r.clients.flatten) =
        if config.database index = database then (List.range' 0 count).map seedOperation else [] := by
  obtain ⟨count,hsends,_⟩ := sends_of_run h index
  have hfits := hsends.fits
  refine ⟨count,by omega,?_⟩
  by_cases hname : config.database index = database
  · have hfilter : (sent es tasks index).filter (fun r => r.database = database) = sent es tasks index := by
      apply List.filter_eq_self.mpr
      exact fun r hr => decide_eq_true ((hsends.each r hr).1.trans hname)
    rw [if_pos hname, hfilter, hsends.records]
  · have hfilter : (sent es tasks index).filter (fun r => r.database = database) = [] := by
      apply List.filter_eq_nil_iff.mpr
      intro r hr hr'
      exact hname ((hsends.each r hr).1.symm.trans (of_decide_eq_true hr'))
    rw [if_neg hname, hfilter, List.flatMap_nil]

theorem sentTo_nodup (h : Run (Answers handle) (config.seedTasks spread) es tasks) (database : String) :
    (sentTo config es tasks database).Nodup := by
  rw [sentTo, List.nodup_flatMap]
  constructor
  · intro index _
    obtain ⟨count,_,hpart⟩ := sentTo_part h index database
    rw [hpart]
    split_ifs
    · exact List.Nodup.map seedOperation_inj List.nodup_range'
    · exact List.nodup_nil
  · apply (List.nodup_finRange _).pairwise_of_forall_ne
    intro i _ j _ hne o hi hj
    have hname : ∀ index, o ∈ ((sent es tasks index).filter (fun r => r.database = database)).flatMap
        (fun r => r.clients.flatten) → config.database index = database := by
      intro index ho
      obtain ⟨_,_,hpart⟩ := sentTo_part h index database
      by_contra hother
      rw [hpart, if_neg hother] at ho
      cases ho
    exact hne (Fin.ext (Config.database_inj ((hname i hi).trans (hname j hj).symm)))

theorem mem_sentTo (h : Run (Answers handle) (config.seedTasks spread) es tasks) {database : String}
    {o : BenchmarkOperation} (ho : o ∈ sentTo config es tasks database) :
    ∃ record < config.records, o = seedOperation record := by
  obtain ⟨index,_,ho⟩ := List.mem_flatMap.mp ho
  obtain ⟨count,hle,hpart⟩ := sentTo_part h index database
  rw [hpart] at ho
  split_ifs at ho
  · obtain ⟨record,hrecord,rfl⟩ := List.mem_map.mp ho
    have hlt := (List.mem_range'_1.mp hrecord).2
    exact ⟨record,by omega,rfl⟩
  · cases ho

theorem served_of_run (hserves : ServesBatches handle) (h : Run (Answers handle) (config.seedTasks spread) es tasks)
    (index : Fin config.databases) : ∀ x ∈ answers es index, ∀ response, x.2 = .ok response →
      Measures response.put (putsIn x.1.clients.flatten) := by
  intro x hx response hresponse
  obtain ⟨e,he,_,rfl⟩ := mem_answers.mp hx
  have hserve := h.serves e he
  change e.reply = .ok response at hresponse
  rw [hresponse] at hserve
  obtain ⟨tr,os,hreturns⟩ := hserve
  exact (hserves _ _ _ tr os response hreturns).1

theorem returns_of_run (h : Run (Answers handle) (config.seedTasks spread) es tasks) {index : Fin config.databases}
    {r : Except String EmbeddedMeasurements} (hr : tasks index = .ofResult r) :
    Returns (config.seedTasks spread index) (answers es index) [] r := by
  rw [Returns, ← hr]
  exact h.consumes index

theorem fulfilled_of_run (hspread : config.records ≤ spread) (hserves : ServesBatches handle)
    (h : Run (Answers handle) (config.seedTasks spread) es tasks) {index : Fin config.databases}
    (hreturned : ∃ r, tasks index = .ofResult r) (hok : ∀ e ∈ es, ∃ response, e.reply = .ok response) :
    ∃ m, tasks index = .ok m := by
  obtain ⟨r,hr⟩ := hreturned
  cases r with
  | ok m => exact ⟨m,hr⟩
  | error e =>
    obtain ⟨x,hx,he⟩ := Config.seedFrom_rejected hspread (returns_of_run h hr) (served_of_run hserves h index)
    obtain ⟨a,ha,_,rfl⟩ := mem_answers.mp hx
    obtain ⟨response,hresponse⟩ := hok a ha
    cases hresponse.symm.trans he

theorem received_of_run (hserves : ServesBatches handle) (h : Run (Answers handle) (config.seedTasks spread) es tasks)
    {index : Fin config.databases} {m : EmbeddedMeasurements} (hm : tasks index = .ok m)
    (hok : ∀ e ∈ es, ∃ response, e.reply = .ok response) {record : ℕ} (hrecord : record < config.records) :
    ∃ e ∈ es, e.req.database = config.database index ∧ ∃ response tr os, e.reply = .ok response ∧
      Returns (handle ⟨e.req.database,.ok (.benchmarkBatch e.req.value e.req.clients)⟩) tr os
        (.ok (.batch response)) ∧ Received tr (config.database index) (seedKey record) config.value := by
  obtain ⟨count,hsends,hall⟩ := sends_of_run h index
  have hmem : seedOperation record ∈ (sent es tasks index).flatMap (fun r => r.clients.flatten) := by
    rw [hsends.records, hall m hm]
    exact List.mem_map_of_mem (List.mem_range'_1.mpr ⟨Nat.zero_le _,by omega⟩)
  obtain ⟨r,hr,ho⟩ := List.mem_flatMap.mp hmem
  obtain ⟨hdatabase,hvalue,_⟩ := hsends.each r hr
  rw [sent, hm] at hr
  simp only [pending, List.append_nil] at hr
  obtain ⟨x,hx,rfl⟩ := List.mem_map.mp hr
  obtain ⟨e,he,_,rfl⟩ := mem_answers.mp hx
  obtain ⟨response,hresponse⟩ := hok e he
  have hserve := h.serves e he
  rw [hresponse] at hserve
  obtain ⟨tr,os,hreturns⟩ := hserve
  have hreceived := (hserves _ _ _ tr os response hreturns).2 _ ho rfl
  refine ⟨e,he,hdatabase,response,tr,os,hresponse,hreturns,?_⟩
  rw [← hdatabase, ← hvalue]
  exact hreceived

theorem measures_of_run (hserves : ServesBatches handle)
    (h : Run (Answers handle) (config.seedTasks spread) es tasks) {index : Fin config.databases}
    {m : EmbeddedMeasurements} (hm : tasks index = .ok m) : Measures m config.records := by
  have hreturns := returns_of_run (r := .ok m) h hm
  have hmeasures := Config.seedFrom_fulfilled hreturns Measures.empty (served_of_run hserves h index)
  rwa [Nat.zero_add, Nat.sub_zero] at hmeasures

theorem mapM_fulfilled_mem {tasks : List (Task BatchRequest BatchReply String EmbeddedMeasurements)}
    {l : List EmbeddedMeasurements} (h : tasks.mapM fulfilled = some l)
    {task : Task BatchRequest BatchReply String EmbeddedMeasurements} (hmem : task ∈ tasks) :
    ∃ m ∈ l, task = .ok m := by
  have hall : List.Forall₂ (fun m task => fulfilled task = some m) l tasks := (Traversals.mapM_option.mp h).flip
  obtain ⟨m,hm,hfulfilled⟩ := Traversals.forall₂_mem hall task hmem
  refine ⟨m,hm,?_⟩
  cases task with
  | ok a => rw [Option.some.inj hfulfilled]
  | err e => cases hfulfilled
  | emit o => exact o.elim
  | call r k => cases hfulfilled

theorem mapM_fulfilled (l : List EmbeddedMeasurements) :
    (l.map (Prog.ok : EmbeddedMeasurements → Task BatchRequest BatchReply String EmbeddedMeasurements)).mapM
      fulfilled = some l := by
  rw [Traversals.mapM_option, List.forall₂_map_left_iff]
  exact List.forall₂_same.mpr fun _ _ => rfl

/-- What the tasks send does not depend on the engine. -/
theorem sendsBalanced (spread : ℕ) (config : Config) (handle : Request → HandlerM Returned Out (Answer Adapter)) :
    SendsBalanced spread config handle where
  terminates es tasks h := by
    have hlength := h.length_le fun _ => Config.seedFrom_within
    rw [Finset.sum_const_nat (fun _ _ => rfl), Finset.card_univ, Fintype.card_fin] at hlength
    exact ⟨hlength,fun index => returned_or_pending (tasks index)⟩
  accepted es tasks h index r hr := by
    obtain ⟨_,hsends,_⟩ := sends_of_run h index
    exact (hsends.each r hr).2.2
  once es tasks h database := ⟨sentTo_nodup h database,fun _ ho => mem_sentTo h ho⟩

theorem seedsBalanced_of_spread (hspread : config.records ≤ spread) (hserves : ServesBatches handle) :
    SeedsBalanced spread config handle := by
  refine ⟨sendsBalanced spread config handle,?_⟩
  intro es tasks h hreturned hok
  choose m hm using fun index => fulfilled_of_run hspread hserves h (hreturned index) hok
  refine ⟨fun index record hrecord => received_of_run hserves h (hm index) hok hrecord,?_⟩
  have htasks : List.ofFn tasks = (List.ofFn m).map Prog.ok := by
    rw [List.map_ofFn]
    exact congrArg List.ofFn (funext hm)
  have hall : ∀ x ∈ List.ofFn m, Measures x config.records := by
    intro x hx
    obtain ⟨index,rfl⟩ := List.mem_ofFn.mp hx
    exact measures_of_run hserves h (hm index)
  obtain ⟨total,hmerged,hmeasures⟩ := measures_merged hspread Measures.empty hall
  rw [List.length_ofFn, Nat.zero_add] at hmeasures
  refine ⟨total,?_,hmeasures⟩
  rw [Config.seedBalanced, htasks, mapM_fulfilled]
  exact congrArg Except.toOption hmerged

/-- A task for a name that the service refuses never sees a batch succeed. -/
theorem seedsBalanced_of_unnamed (hmeasures : MeasuresBatches handle) {index : ℕ} (hindex : index < config.databases)
    (hname : ¬ ValidDatabaseName (config.database index)) : SeedsBalanced spread config handle := by
  refine ⟨sendsBalanced spread config handle,?_⟩
  intro es tasks h hreturned hok
  exfalso
  obtain ⟨r,hr⟩ := hreturned ⟨index,hindex⟩
  have hreturns := returns_of_run h hr
  rw [Config.seedTasks, Config.seedBalancedDatabase, Config.seedFrom_batch config.records_pos] at hreturns
  obtain ⟨reply,tr,hanswers,_⟩ := hreturns.of_call
  obtain ⟨e,he,_,hanswer⟩ := mem_answers.mp (hanswers ▸ List.mem_cons_self)
  obtain ⟨response,hresponse⟩ := hok e he
  have hserve := h.serves e he
  rw [hresponse] at hserve
  obtain ⟨tr,os,hbatch⟩ := hserve
  have hrequest : e.req = config.batchFrom (config.database index) 0 := congrArg Sigma.fst hanswer
  have hvalid := hmeasures.named _ _ _ tr os response hbatch
  rw [hrequest] at hvalid
  exact hname hvalid

def Measured (r : BatchRequest) (reply : BatchReply r) : Prop :=
  ∃ response, reply = .ok response ∧ response.put.measurableLatencyNs.length = r.clients.flatten.length

theorem measured_ready (hmeasures : MeasuresBatches handle)
    (hnames : ∀ index < config.databases, ValidDatabaseName (config.database index))
    (h : Run (Answers handle) (config.seedTasks spread) es tasks) {index : Fin config.databases} {r : BatchRequest}
    {k : BatchReply r → Task BatchRequest BatchReply String EmbeddedMeasurements} (hcall : tasks index = .call r k) :
    ∃ x, Answers handle r x ∧ Measured r x := by
  obtain ⟨count,hsends,_⟩ := sends_of_run h index
  have hr : r ∈ sent es tasks index := by
    rw [sent, hcall]
    exact List.mem_append_right _ (List.mem_singleton_self r)
  obtain ⟨hdatabase,_,hvalid⟩ := hsends.each r hr
  have hputs : ∀ o ∈ r.clients.flatten, o.operation = .put := by
    intro o ho
    have hmem : o ∈ (sent es tasks index).flatMap (fun r => r.clients.flatten) := List.mem_flatMap.mpr ⟨r,hr,ho⟩
    rw [hsends.records] at hmem
    obtain ⟨record,_,rfl⟩ := List.mem_map.mp hmem
    rfl
  have hname : ValidDatabaseName r.database := hdatabase ▸ hnames index index.isLt
  obtain ⟨tr,os,response,hreturns,hlatencies⟩ := hmeasures.measurable r.database r.value r.clients hname hvalid hputs
  exact ⟨.ok response,⟨tr,os,hreturns⟩,response,rfl,hlatencies⟩

/-- With more records than the engine spreads, a seeding of valid names in which every
latency was measured does not come to its measurements. -/
theorem not_seedsBalanced (hmeasures : MeasuresBatches handle) (hspread : spread < config.records)
    (hdatabases : 0 < config.databases)
    (hnames : ∀ index < config.databases, ValidDatabaseName (config.database index)) :
    ¬ SeedsBalanced spread config handle := by
  intro hseeds
  have hstart : Run (Answers handle) (config.seedTasks spread) [] (config.seedTasks spread) := .start
  obtain ⟨es,tasks,hrun,hreturned,hgood⟩ := Run.completes Measured (fun _ => Config.seedFrom_within)
    (fun _ _ h _ _ _ hcall => measured_ready hmeasures hnames h hcall) hstart (by simp)
  have hok : ∀ e ∈ es, ∃ response, e.reply = .ok response := by
    intro e he
    obtain ⟨response,hresponse,_⟩ := hgood e he
    exact ⟨response,hresponse⟩
  obtain ⟨_,total,htotal,_⟩ := hseeds.complete es tasks hrun hreturned hok
  obtain ⟨l,hl,hmerged⟩ := Option.bind_eq_some_iff.mp htotal
  have hfold := Traversals.toOption_some.mp hmerged
  obtain ⟨m,hm,hfulfilled⟩ := mapM_fulfilled_mem hl (List.mem_ofFn.mpr ⟨⟨0,hdatabases⟩,rfl⟩)
  have hmeasured : ∀ x ∈ answers es ⟨0,hdatabases⟩, ∀ response, x.2 = .ok response →
      response.put.measurableLatencyNs.length = x.1.clients.flatten.length := by
    intro x hx response hresponse
    obtain ⟨e,he,_,rfl⟩ := mem_answers.mp hx
    obtain ⟨response',hresponse',hlatencies⟩ := hgood e he
    cases hresponse.symm.trans hresponse'
    exact hlatencies
  have hreturns := returns_of_run (r := .ok m) hrun hfulfilled
  have hlatencies : m.measurableLatencyNs.length = config.records :=
    (Config.seedFrom_latencies hreturns hmeasured).trans (Nat.zero_add _)
  have hle := foldlM_merged hfold m hm
  omega

theorem seedsBalanced_iff (config : Config) (hserves : ServesBatches handle) (hmeasures : MeasuresBatches handle) :
    SeedsBalanced spread config handle ↔ config.records ≤ spread ∨ config.databases = 0 ∨
      ∃ index < config.databases, ¬ ValidDatabaseName (config.database index) := by
  constructor
  · intro hseeds
    by_contra hnone
    push Not at hnone
    obtain ⟨hspread,hdatabases,hnames⟩ := hnone
    exact not_seedsBalanced hmeasures hspread (Nat.pos_of_ne_zero hdatabases) hnames hseeds
  · rintro (hspread | hnone | ⟨index,hindex,hname⟩)
    · exact seedsBalanced_of_spread hspread hserves
    · refine ⟨sendsBalanced spread config handle,?_⟩
      intro es tasks _ _ _
      refine ⟨fun index => absurd index.isLt (by omega),emptyEmbeddedMeasurements,?_,?_⟩
      · rw [Config.seedBalanced, List.eq_nil_of_length_eq_zero (List.length_ofFn.trans hnone)]
        rfl
      · rw [hnone, Nat.zero_mul]
        exact Measures.empty
    · exact seedsBalanced_of_unnamed hmeasures hindex hname

/-- Balanced seeding of the containers and of the Durable Objects. -/
theorem balanced_seeding_iff (config : Config) (L : DoCache.LocalCacheHead) (spread : ℕ) :
    (SendsBalanced spread config AppState.handle ∧ SendsBalanced spread config (SlateDbObject.handle (L := L))) ∧
    (SeedsBalanced spread config AppState.handle ↔ config.records ≤ spread ∨ config.databases = 0 ∨
      ∃ index < config.databases, ¬ ValidDatabaseName (config.database index)) ∧
    (SeedsBalanced spread config (SlateDbObject.handle (L := L)) ↔ config.records ≤ spread ∨ config.databases = 0 ∨
      ∃ index < config.databases, ¬ ValidDatabaseName (config.database index)) :=
  ⟨⟨sendsBalanced spread config _,sendsBalanced spread config _⟩,
    seedsBalanced_iff config AppState.serves_batches AppState.measures_batches,
    seedsBalanced_iff config SlateDbObject.serves_batches SlateDbObject.measures_batches⟩

end Runs

def largeSeeding : Config :=
  ⟨"bench",1,200000,64,32,"value",by decide,⟨by decide,by decide⟩,⟨by decide,by decide⟩⟩

/-- The batches carry 2048 records each, but the measurements of the database are merged in
one call. -/
theorem large_seeding_fails : ¬ SeedsBalanced 125000 largeSeeding AppState.handle := by
  refine not_seedsBalanced AppState.measures_batches (by decide) Nat.zero_lt_one ?_
  intro index hindex
  obtain rfl : index = 0 := Nat.lt_one_iff.mp hindex
  decide

end SlatedbCloudflare.Benchmark
