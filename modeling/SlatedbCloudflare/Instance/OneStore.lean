import SlatedbCloudflare.Instance.Linearizable
import SlatedbCloudflare.DurableObject.CacheRefinement

/-! # Each service is one key-value store -/
namespace SlatedbCloudflare.Instance
open Programs Locks ObjectStore Utf8 Histories Joins

section Operations
variable {ι Own : Type} {Returned : Own → Type} {Out Adapter : Type} {evs : Events ι Returned} {os : List Out}
  {r : Op Own} {k : ℕ → Reply Returned r → OpM Returned Out BenchmarkBatchResponse}

theorem timed_consumes {q : OpM Returned Out BenchmarkBatchResponse} (hk : ∀ started x, (k started x).Asks Op.Hushed)
    (hc : Consumes (.call .now fun started => .call r (k started)) (evs.map Event.answer) os q) :
    told evs = [] ∨ ∃ e ∈ evs, ∃ x, e.answer = ⟨r,x⟩ ∧ told evs = told [e] := by
  generalize htr : evs.map Event.answer = tr at hc
  cases hc with
  | refl =>
    cases List.map_eq_nil_iff.mp htr
    exact .inl rfl
  | @call _ started _ _ tr' _ hc =>
    obtain ⟨e₀,rest,rfl,hx₀,rfl⟩ := List.map_eq_cons_iff.mp htr
    have hfirst : told (e₀ :: rest) = told rest := by
      have hsilent : e₀.req.Silent := by
        rw [show e₀.req = .now from congrArg Sigma.fst hx₀]
        exact trivial
      exact List.filterMap_cons_none (shown_silent hsilent)
    rw [hfirst]
    generalize htr' : rest.map Event.answer = tr'' at hc
    cases hc with
    | refl =>
      cases List.map_eq_nil_iff.mp htr'
      exact .inl rfl
    | @call _ x _ _ tr₃ _ hc =>
      obtain ⟨e,last,rfl,hx,rfl⟩ := List.map_eq_cons_iff.mp htr'
      have hlast : told last = [] := told_of_hushed fun e he => hc.asks (hk started x) _ (List.mem_map_of_mem he)
      refine .inr ⟨e,by simp,x,hx,?_⟩
      rw [← List.singleton_append, told_append, hlast, List.append_nil]

theorem timed_returns {result : Except AppError BenchmarkBatchResponse} {P : Prop}
    (hk : ∀ started x, (k started x).Asks Op.Hushed)
    (hr : Returns (.call .now fun started => .call r (k started)) (evs.map Event.answer) os result)
    (hP : ∀ e ∈ evs, ∀ started x tr, e.answer = ⟨r,x⟩ → told evs = told [e] → Returns (k started x) tr os result → P) :
    P := by
  obtain ⟨started,tr,htr,hrest⟩ := hr.of_call
  obtain ⟨x,tr',rfl,hlast⟩ := hrest.of_call
  obtain ⟨e₀,rest,rfl,hx₀,htr'⟩ := List.map_eq_cons_iff.mp htr
  obtain ⟨e,last,rfl,hx,rfl⟩ := List.map_eq_cons_iff.mp htr'
  refine hP e (by simp) started x _ hx ?_ hlast
  have hsilent : e₀.req.Silent := by
    rw [show e₀.req = .now from congrArg Sigma.fst hx₀]
    exact trivial
  have hnone : told last = [] := told_of_hushed fun e he =>
    Consumes.asks hlast (hk started x) _ (List.mem_map_of_mem he)
  have hfirst : told (e₀ :: e :: last) = told (e :: last) := List.filterMap_cons_none (shown_silent hsilent)
  rw [hfirst, ← List.singleton_append, told_append, hnone, List.append_nil]

variable {name value key : String} {db : ℕ}

theorem get_performs (h : On name db evs) {e : Event ι World (Op Own) (Reply Returned)} (he : e ∈ evs)
    {x : Except String (Option Bytes)} (hx : e.answer = ⟨.get db (asBytes key),x⟩) :
    told [e] = [] ∨ ∃ c, told [e] = [c] ∧ Performs name value ⟨.get,key⟩ c := by
  rcases h.get he hx with ⟨found,_,hshown⟩ | ⟨hshown,_⟩
  · exact .inr ⟨_,told_one hshown,_,rfl⟩
  · exact .inl (told_none hshown)

theorem get_found (h : On name db evs) {e : Event ι World (Op Own) (Reply Returned)} (he : e ∈ evs) {bytes : Bytes}
    (hx : e.answer = ⟨.get db (asBytes key),.ok (some bytes)⟩) :
    ∃ c, told [e] = [c] ∧ Performs name value ⟨.get,key⟩ c ∧ Found c := by
  rcases h.get he hx with ⟨found,hfound,hshown⟩ | ⟨_,error,herror⟩
  · cases hfound
    exact ⟨_,told_one hshown,⟨_,rfl⟩,Option.some_ne_none _⟩
  · cases herror

theorem put_performs (h : On name db evs) {e : Event ι World (Op Own) (Reply Returned)} (he : e ∈ evs)
    {x : Except String Unit} (hx : e.answer = ⟨.put db (asBytes key) (asBytes value) false,x⟩) :
    told [e] = [] ∨ ∃ c, told [e] = [c] ∧ Performs name value ⟨.put,key⟩ c := by
  rcases h.put he hx with hshown | ⟨hshown,_⟩
  · exact .inr ⟨_,told_one hshown,rfl⟩
  · exact .inl (told_none hshown)

theorem put_found (h : On name db evs) {e : Event ι World (Op Own) (Reply Returned)} (he : e ∈ evs) {u : Unit}
    (hx : e.answer = ⟨.put db (asBytes key) (asBytes value) false,.ok u⟩) :
    ∃ c, told [e] = [c] ∧ Performs name value ⟨.put,key⟩ c ∧ Found c := by
  rcases h.put he hx with hshown | ⟨_,error,herror⟩
  · exact ⟨_,told_one hshown,rfl,trivial⟩
  · cases herror

/-- A get between two readings of the clock, which fails unless it finds a value. -/
structure TimedGet (k : ℕ → Except String (Option Bytes) → OpM Returned Out BenchmarkBatchResponse) : Prop where
  hushed : ∀ started x, (k started x).Asks Op.Hushed
  finds : ∀ started x tr os m, Returns (k started x) tr os (.ok m) → ∃ bytes, x = .ok (some bytes)

variable {m m' : BenchmarkBatchResponse}

theorem TimedGet.begun {k : ℕ → Except String (Option Bytes) → OpM Returned Out BenchmarkBatchResponse}
    (hk : TimedGet k) (h : On name db evs) {q : OpM Returned Out BenchmarkBatchResponse}
    (hc : Consumes (.call .now fun started => .call (.get db (asBytes key)) (k started)) (evs.map Event.answer) os q) :
    told evs = [] ∨ ∃ c, told evs = [c] ∧ Performs name value ⟨.get,key⟩ c := by
  rcases timed_consumes (r := .get db (asBytes key)) hk.hushed hc with hnone | ⟨e,he,x,hx,htold⟩
  · exact .inl hnone
  · rw [htold]
    exact get_performs h he hx

theorem TimedGet.done {k : ℕ → Except String (Option Bytes) → OpM Returned Out BenchmarkBatchResponse}
    (hk : TimedGet k) (h : On name db evs)
    (hr : Returns (.call .now fun started => .call (.get db (asBytes key)) (k started)) (evs.map Event.answer) os
      (.ok m')) : ∃ c, told evs = [c] ∧ Performs name value ⟨.get,key⟩ c ∧ Found c := by
  refine timed_returns (r := .get db (asBytes key)) hk.hushed hr ?_
  intro e he started x tr hx htold hrest
  rw [htold]
  obtain ⟨bytes,rfl⟩ := hk.finds started x tr os m' hrest
  exact get_found h he hx

section Puts
variable {message : String → AppError}
  {record : BenchmarkOperationMeasurements → ℕ → BenchmarkOperationMeasurements}

theorem timedPut_begun (h : On name db evs) {q : OpM Returned Out BenchmarkBatchResponse}
    (hc : Consumes (timedPut message record db (asBytes value) key m) (evs.map Event.answer) os q) :
    told evs = [] ∨ ∃ c, told evs = [c] ∧ Performs name value ⟨.put,key⟩ c := by
  have htimed : told evs = [] ∨ ∃ e ∈ evs, ∃ x, e.answer = ⟨.put db (asBytes key) (asBytes value) false,x⟩ ∧
      told evs = told [e] := by
    refine timed_consumes ?_ hc
    exact fun started x => (orFail_asks message x).bind fun _ => ⟨trivial,fun _ => trivial⟩
  rcases htimed with hnone | ⟨e,he,x,hx,htold⟩
  · exact .inl hnone
  · rw [htold]
    exact put_performs h he hx

theorem timedPut_done (h : On name db evs)
    (hr : Returns (timedPut message record db (asBytes value) key m) (evs.map Event.answer) os (.ok m')) :
    ∃ c, told evs = [c] ∧ Performs name value ⟨.put,key⟩ c ∧ Found c := by
  refine timed_returns (r := .put db (asBytes key) (asBytes value) false) ?_ hr ?_
  · exact fun started x => (orFail_asks message x).bind fun _ => ⟨trivial,fun _ => trivial⟩
  · intro e he started x tr hx htold hrest
    rw [htold]
    obtain ⟨_,rfl,_⟩ := returns_orFail hrest
    exact put_found h he hx

/-- Operations that are timed puts and timed gets. -/
theorem TimedGet.operates {run : BenchmarkOperation → BenchmarkBatchResponse → OpM Returned Out BenchmarkBatchResponse}
    {k : BenchmarkBatchResponse → ℕ → Except String (Option Bytes) → OpM Returned Out BenchmarkBatchResponse}
    (hk : ∀ m, TimedGet (k m))
    (hget : ∀ key m, run ⟨.get,key⟩ m = .call .now fun started => .call (.get db (asBytes key)) (k m started))
    (hput : ∀ key m, run ⟨.put,key⟩ m = timedPut message record db (asBytes value) key m) :
    Operates ι db value run := by
  constructor
  · intro name evs os o m q h hc
    obtain ⟨kind,key⟩ := o
    cases kind with
    | get =>
      rw [hget] at hc
      exact (hk m).begun h hc
    | put =>
      rw [hput] at hc
      exact timedPut_begun h hc
  · intro name evs os o m m' h hr
    obtain ⟨kind,key⟩ := o
    cases kind with
    | get =>
      rw [hget] at hr
      exact (hk m).done h hr
    | put =>
      rw [hput] at hr
      exact timedPut_done h hr

theorem timedPut_asks : (timedPut message record db (asBytes value) key m : OpM Returned Out _).Asks
    fun r => r.Textual ∧ ¬ r.Pulls := by
  refine ⟨⟨trivial,not_false⟩,fun started => ?_⟩
  refine ⟨⟨⟨⟨key,rfl⟩,value,rfl⟩,not_false⟩,fun x => (orFail_asks message x).bind fun _ => ?_⟩
  exact ⟨⟨trivial,not_false⟩,fun _ => trivial⟩

end Puts

end Operations

section Forms
variable {ι Own : Type} {Returned : Own → Type} {Out Adapter : Type} {limit : Option ℕ → ℕ} {name : String}

theorem rejected_form (req : Request) (e : AppError) :
    Form ι limit req (.err e : HandlerM Returned Out (Answer Adapter)) :=
  .plain trivial fun _ _ _ hr => hr.err_ne_ok.elim

/-- `reopen` and `cache/clear` where they replace the database. -/
theorem replacing_form {call : Call} (hcall : AnsweredPlainly call (.done : Answer Adapter))
    {message : String → AppError} {between : OpM Returned Out Unit} {openDb : String → OpM Returned Out ActiveDb}
    (hb : between.Asks Op.Hushed) (hopen : (openDb name).Asks Op.Hushed) :
    Form ι limit ⟨name,.ok call⟩ (do withLock (replace message between openDb name); pure (.done : Answer Adapter)) := by
  refine .plain ((replace_hushed hb hopen).bind fun _ => trivial) ?_
  intro tr os a hr
  obtain ⟨_,_,_,_,_,_,_,_,hend⟩ := Returns.of_bind_ok hr
  obtain ⟨_,_,ha⟩ := hend.of_ok
  cases ha
  exact ⟨_,rfl,hcall⟩

theorem stats_form {β : Type} {metrics : OpM Returned Out β} {status : β → OpM Returned Out (Answer Adapter)}
    (hmetrics : metrics.Asks Op.Hushed) (hstatus : ∀ read, (status read).Asks Op.Hushed)
    (hanswer : ∀ read tr os a, Returns (status read) tr os (.ok a) → AnsweredPlainly .stats a) :
    Form ι limit ⟨name,.ok .stats⟩ (do let read ← withLock metrics; free (status read)) := by
  refine .plain ((asks_of_withLock trivial trivial hmetrics).bind fun read => asks_of_free (hstatus read)) ?_
  intro tr os a hr
  obtain ⟨read,_,_,_,_,_,_,_,hfree⟩ := Returns.of_bind_ok hr
  obtain ⟨_,_,hread⟩ := returns_free hfree
  exact ⟨_,rfl,hanswer read _ _ a hread⟩

end Forms

end SlatedbCloudflare.Instance

namespace SlatedbCloudflare.SlateDbObject
open Programs Locks ObjectStore Utf8 Instance Histories Joins

variable {L : DoCache.LocalCacheHead} {ι : Type}

theorem onStorage_hushed {α : Type} (p : DoCache.CacheM L String α) : (onStorage p).Asks Op.Hushed := by
  induction p with
  | ok a => trivial
  | err e => trivial
  | emit o p ih => exact ih
  | call r k ih => exact ⟨trivial,ih⟩

theorem openDb_hushed (name : String) : (openDb (L := L) name).Asks Op.Hushed :=
  ⟨trivial,fun x => (orFail_asks slatedbError x).bind fun _ => ⟨trivial,fun x => (orFail_asks slatedbError x).bind
    fun _ => trivial⟩⟩

theorem timed_get (m : BenchmarkBatchResponse) : TimedGet (afterGet (L := L) m) where
  hushed started x := (orFail_asks slatedbError x).bind fun found => ⟨trivial,fun now => by cases found <;> trivial⟩
  finds started x tr os m' hr := by
    obtain ⟨found,rfl,hrest⟩ := returns_orFail hr
    obtain ⟨now,_,_,hend⟩ := hrest.of_call
    cases found with
    | none => exact hend.err_ne_ok.elim
    | some bytes => exact ⟨bytes,rfl⟩

theorem operates (db : ℕ) (value : String) : Operates ι db value (runBenchmarkOperation (L := L) db (asBytes value)) :=
  TimedGet.operates timed_get (runBenchmarkOperation_get db (asBytes value)) (runBenchmarkOperation_put db (asBytes value))

theorem runBenchmarkOperation_asks (db : ℕ) (value : String) (o : BenchmarkOperation) (m : BenchmarkBatchResponse) :
    (runBenchmarkOperation (L := L) db (asBytes value) o m).Asks fun r => r.Textual ∧ ¬ r.Pulls := by
  obtain ⟨kind,key⟩ := o
  cases kind with
  | get =>
    refine ⟨⟨trivial,not_false⟩,fun started => ?_⟩
    refine ⟨⟨⟨key,rfl⟩,not_false⟩,fun x => (orFail_asks slatedbError x).bind fun found => ?_⟩
    refine ⟨⟨trivial,not_false⟩,fun now => ?_⟩
    cases found <;> trivial
  | put => exact timedPut_asks

def scanLimit (limit : Option ℕ) : ℕ := clampLimit ((limit.bind parseUsize).getD 100)

theorem handleJoined_invalid {name : String} (h : ¬ ValidDatabaseName name) (schedule : List ℕ)
    (call : Except AppError Call) : ∃ e, handleJoined (L := L) schedule ⟨name,call⟩ = .err e := by
  rcases call with rejection | call
  · exact ⟨_,if_pos h⟩
  · cases call <;> exact ⟨_,if_pos h⟩

theorem database_form (name : String) {call : Call} {f : ℕ → ObjectM L (Answer PerfSnapshot)}
    (hbody : Body ι scanLimit call f) :
    Form ι scanLimit ⟨name,.ok call⟩ (do let db ← database name; free (f db)) :=
  .onDatabase rfl (openDb_hushed name) (fun _ _ _ => openDb_built) hbody

theorem clearCache_form (name : String) :
    Form ι scanLimit ⟨name,.ok .clearCache⟩ (route (L := L) name .clearCache) := by
  refine .plain (asks_of_free ((onStorage_hushed _).bind fun _ => trivial)) ?_
  intro tr os a hr
  obtain ⟨_,_,hclear⟩ := returns_free hr
  obtain ⟨_,_,_,_,_,_,_,_,hend⟩ := Returns.of_bind_ok hclear
  obtain ⟨_,_,ha⟩ := hend.of_ok
  cases ha
  exact ⟨_,rfl,trivial⟩

theorem status_form (name : String) : Form ι scanLimit ⟨name,.ok .stats⟩ (route (L := L) name .stats) := by
  have hmetrics : (activeMetrics (L := L)).Asks Op.Hushed := by
    refine ⟨trivial,fun active => ?_⟩
    cases active with
    | none => trivial
    | some current => exact ⟨trivial,fun _ => trivial⟩
  have hstatus : ∀ read, (status (L := L) read).Asks Op.Hushed := fun read =>
    (onStorage_hushed _).bind fun _ => ⟨trivial,fun _ => ⟨trivial,fun _ => trivial⟩⟩
  refine stats_form hmetrics hstatus ?_
  intro read tr os a hr
  obtain ⟨_,_,_,_,_,_,_,_,hrest⟩ := Returns.of_bind_ok hr
  obtain ⟨_,_,_,hrest⟩ := hrest.of_call
  obtain ⟨_,_,_,hend⟩ := hrest.of_call
  obtain ⟨_,_,ha⟩ := hend.of_ok
  cases ha
  exact trivial

/-- Batches apart, a route is the same with joined clients. -/
theorem route_form (name : String) {call : Call} (hcall : ∀ value clients, call ≠ .benchmarkBatch value clients) :
    Form ι scanLimit ⟨name,.ok call⟩ (route (L := L) name call) := by
  cases call with
  | put key value => exact database_form name (put_body ι slatedbError scanLimit key value)
  | get key => exact database_form name (get_body ι slatedbError scanLimit key)
  | delete key => exact database_form name (delete_body ι slatedbError scanLimit key)
  | scan start limit => exact database_form name (scan_body ι slatedbError scanLimit start limit)
  | flush => exact database_form name (flush_body ι slatedbError scanLimit)
  | benchmarkBatch value clients => exact absurd rfl (hcall value clients)
  | reopen =>
    have hbetween : (pure () : ObjectM L Unit).Asks Op.Hushed := trivial
    refine replacing_form ?_ hbetween (openDb_hushed name)
    exact trivial
  | clearCache => exact clearCache_form name
  | stats => exact status_form name

theorem handleJoined_form (schedule : List ℕ) (req : Request) :
    Form ι scanLimit req (handleJoined (L := L) schedule req) := by
  obtain ⟨name,call⟩ := req
  by_cases hvalid : ValidDatabaseName name
  swap
  · obtain ⟨e,he⟩ := handleJoined_invalid (L := L) hvalid schedule call
    rw [he]
    exact rejected_form _ e
  rcases call with rejection | call
  · have herr : handleJoined (L := L) schedule ⟨name,.error rejection⟩ = .err rejection :=
      if_neg (not_not_intro hvalid)
    rw [herr]
    exact rejected_form _ rejection
  have hroute : handle (L := L) ⟨name,.ok call⟩ = route name call := if_neg (not_not_intro hvalid)
  cases call with
  | benchmarkBatch value clients =>
    by_cases hbatch : ValidBatch clients
    · simp only [handleJoined, hvalid, hbatch, not_true_eq_false, if_false]
      exact database_form name (batch_body ι scanLimit value (fun db => operates db value)
        (fun db o m => runBenchmarkOperation_asks db value o m) schedule clients)
    · simp only [handleJoined, hvalid, hbatch, not_true_eq_false, not_false_eq_true, if_false, if_true]
      exact rejected_form _ _
  | _ =>
    change Form ι scanLimit _ (handle _)
    rw [hroute]
    exact route_form name (by simp)

end SlatedbCloudflare.SlateDbObject

namespace SlatedbCloudflare.AppState
open Programs Locks ObjectStore Utf8 Instance Histories Joins

variable {ι : Type}

theorem openDatabase_hushed (name : String) : (openDatabase name).Asks Op.Hushed :=
  ⟨trivial,fun x => (orFail_asks .internal x).bind fun _ => ⟨trivial,fun x => (orFail_asks .internal x).bind
    fun _ => trivial⟩⟩

theorem timed_get (m : BenchmarkBatchResponse) : TimedGet (afterGet m) where
  hushed started x := (orFail_asks .internal x).bind fun found => by
    cases found with
    | none => trivial
    | some _ => exact ⟨trivial,fun _ => trivial⟩
  finds started x tr os m' hr := by
    obtain ⟨found,rfl,hrest⟩ := returns_orFail hr
    cases found with
    | none => exact hrest.err_ne_ok.elim
    | some bytes => exact ⟨bytes,rfl⟩

theorem operates (db : ℕ) (value : String) : Operates ι db value (runBenchmarkOperation db (asBytes value)) :=
  TimedGet.operates timed_get (runBenchmarkOperation_get db (asBytes value)) (runBenchmarkOperation_put db (asBytes value))

theorem runBenchmarkOperation_asks (db : ℕ) (value : String) (o : BenchmarkOperation) (m : BenchmarkBatchResponse) :
    (runBenchmarkOperation db (asBytes value) o m).Asks fun r => r.Textual ∧ ¬ r.Pulls := by
  obtain ⟨kind,key⟩ := o
  cases kind with
  | get =>
    refine ⟨⟨trivial,not_false⟩,fun started => ?_⟩
    refine ⟨⟨⟨key,rfl⟩,not_false⟩,fun x => (orFail_asks .internal x).bind fun found => ?_⟩
    cases found with
    | none => trivial
    | some _ => exact ⟨⟨trivial,not_false⟩,fun _ => trivial⟩
  | put => exact timedPut_asks

def scanLimit (limit : Option ℕ) : ℕ := clampLimit (limit.getD 100)

theorem database_invalid {name : String} (h : ¬ ValidDatabaseName name) :
    database name = .err (.badRequest "invalid database name") := by
  rw [database, validateDatabaseName, if_neg h]
  rfl

theorem database_valid {name : String} (h : ValidDatabaseName name) :
    database name = withLock (currentOr twoNames openDatabase name) := by
  rw [database, validateDatabaseName, if_pos h]
  rfl

theorem handleJoined_invalid {name : String} (h : ¬ ValidDatabaseName name) (schedule : List ℕ)
    (call : Except AppError Call) : ∃ e, handleJoined schedule ⟨name,call⟩ = .err e := by
  have hplain := handle_invalid h call
  rcases call with rejection | call
  · exact ⟨_,rfl⟩
  cases call with
  | benchmarkBatch value clients =>
    by_cases hbatch : ValidBatch clients
    · simp only [handleJoined, hbatch, not_true_eq_false, if_false, database_invalid h]
      exact ⟨_,rfl⟩
    · exact ⟨_,if_pos hbatch⟩
  | _ => exact hplain

theorem database_form {name : String} (hvalid : ValidDatabaseName name) {call : Call}
    {f : ℕ → ProcessM (Answer Counters)} (hbody : Body ι scanLimit call f) :
    Form ι scanLimit ⟨name,.ok call⟩ (do let db ← database name; free (f db)) := by
  rw [database_valid hvalid]
  exact .onDatabase rfl (openDatabase_hushed name) (fun _ _ _ => openDatabase_built) hbody

theorem clearCache_form {name : String} (hvalid : ValidDatabaseName name) :
    Form ι scanLimit ⟨name,.ok .clearCache⟩ (clearCache name) := by
  have hchecked : validateDatabaseName name = pure () := if_pos hvalid
  rw [clearCache, hchecked]
  have hremove : (removeCache name).Asks Op.Hushed := by
    refine ⟨trivial,fun removed => ?_⟩
    rcases removed with (_ | _) | _ <;> trivial
  refine replacing_form ?_ hremove (openDatabase_hushed name)
  exact trivial

theorem reopen_form {name : String} (hvalid : ValidDatabaseName name) :
    Form ι scanLimit ⟨name,.ok .reopen⟩ (reopen name) := by
  have hchecked : validateDatabaseName name = pure () := if_pos hvalid
  rw [reopen, hchecked]
  have hbetween : (pure () : ProcessM Unit).Asks Op.Hushed := trivial
  refine replacing_form ?_ hbetween (openDatabase_hushed name)
  exact trivial

theorem status_form {name : String} (hvalid : ValidDatabaseName name) :
    Form ι scanLimit ⟨name,.ok .stats⟩ (stats name) := by
  have hchecked : validateDatabaseName name = pure () := if_pos hvalid
  rw [stats, hchecked]
  have hmetrics : activeMetrics.Asks Op.Hushed := by
    refine ⟨trivial,fun active => ?_⟩
    cases active with
    | none => trivial
    | some current => exact ⟨trivial,fun _ => ⟨trivial,fun _ => trivial⟩⟩
  have hstatus : ∀ read, (status name read).Asks Op.Hushed := fun read =>
    ⟨trivial,fun x => (orFail_asks .internal x).bind fun _ => trivial⟩
  refine stats_form hmetrics hstatus ?_
  intro read tr os a hr
  obtain ⟨_,_,_,hrest⟩ := Returns.of_call hr
  obtain ⟨_,_,hend⟩ := returns_orFail hrest
  obtain ⟨_,_,ha⟩ := hend.of_ok
  cases ha
  exact trivial

theorem handleJoined_form (schedule : List ℕ) (req : Request) :
    Form ι scanLimit req (handleJoined schedule req) := by
  obtain ⟨name,call⟩ := req
  by_cases hvalid : ValidDatabaseName name
  swap
  · obtain ⟨e,he⟩ := handleJoined_invalid hvalid schedule call
    rw [he]
    exact rejected_form _ e
  rcases call with rejection | call
  · exact rejected_form _ rejection
  cases call with
  | put key value => exact database_form hvalid (put_body ι .internal scanLimit key value)
  | get key => exact database_form hvalid (get_body ι .internal scanLimit key)
  | delete key => exact database_form hvalid (delete_body ι .internal scanLimit key)
  | scan start limit => exact database_form hvalid (scan_body ι .internal scanLimit start limit)
  | flush => exact database_form hvalid (flush_body ι .internal scanLimit)
  | benchmarkBatch value clients =>
    by_cases hbatch : ValidBatch clients
    · simp only [handleJoined, hbatch, not_true_eq_false, if_false]
      exact database_form hvalid (batch_body ι scanLimit value (fun db => operates db value)
        (fun db o m => runBenchmarkOperation_asks db value o m) schedule clients)
    · simp only [handleJoined, hbatch, not_false_eq_true, if_true]
      exact rejected_form _ _
  | reopen => exact reopen_form hvalid
  | clearCache => exact clearCache_form hvalid
  | stats => exact status_form hvalid

end SlatedbCloudflare.AppState

namespace SlatedbCloudflare
open Programs Locks ObjectStore Utf8 Instance Histories

section
variable (L : DoCache.LocalCacheHead) {ι : Type} [DecidableEq ι] (texts : String → List (Write String String))
  (schedules : ι → List ℕ) (requests : ι → Request)

abbrev objectPool : Pool ι World (Op (SlateDbObject.Own L)) (Reply SlateDbObject.Returned) Perf.Increment AppError
    (Answer SlateDbObject.PerfSnapshot) :=
  start (World.start texts) fun i => SlateDbObject.handleJoined (L := L) (schedules i) (requests i)

abbrev processPool : Pool ι World (Op AppState.Own) (Reply AppState.Returned) Empty AppError (Answer AppState.Counters) :=
  start (World.start texts) fun i => AppState.handleJoined (schedules i) (requests i)

variable {L texts schedules requests}

theorem object_sound {es : Events ι SlateDbObject.Returned} {T} (h : Run Acts (objectPool L texts schedules requests) es T)
    (hopen : OpensBeforeFailures (es.map (Event.map World.slot))) :
    Sound (fun i => SlateDbObject.handleJoined (L := L) (schedules i) (requests i)) (World.start texts) es T :=
  sound_of_run (fun i => (SlateDbObject.handleJoined_shape (schedules i) (requests i)).keeps SlateDbObject.openDb_opening)
    (fun i => (SlateDbObject.handleJoined_shape (schedules i) (requests i)).named SlateDbObject.openDb_opening) h hopen

theorem process_sound {es : Events ι AppState.Returned} {T} (h : Run Acts (processPool texts schedules requests) es T)
    (hopen : OpensBeforeFailures (es.map (Event.map World.slot))) :
    Sound (fun i => AppState.handleJoined (schedules i) (requests i)) (World.start texts) es T :=
  sound_of_run (fun i => (AppState.handleJoined_shape (schedules i) (requests i)).keeps AppState.openDatabase_opening)
    (fun i => (AppState.handleJoined_shape (schedules i) (requests i)).named AppState.openDatabase_opening) h hopen

theorem object_linear {es : Events ι SlateDbObject.Returned} {T} (h : Run Acts (objectPool L texts schedules requests) es T)
    (hopen : OpensBeforeFailures (es.map (Event.map World.slot))) :
    Linear SlateDbObject.scanLimit requests (stored texts) es T :=
  (object_sound h hopen).linear fun i => SlateDbObject.handleJoined_form (schedules i) (requests i)

theorem process_linear {es : Events ι AppState.Returned} {T} (h : Run Acts (processPool texts schedules requests) es T)
    (hopen : OpensBeforeFailures (es.map (Event.map World.slot))) :
    Linear AppState.scanLimit requests (stored texts) es T :=
  (process_sound h hopen).linear fun i => AppState.handleJoined_form (schedules i) (requests i)

end

section Storing
variable {Own : Type} {Returned : Own → Type} {Out Adapter : Type}

def creating (name : String) (own : Own) (x : Returned own) :
    List ((r : Locked (Op Own)) × Locked.Reply (Reply Returned) r) :=
  [⟨.lock,()⟩,⟨.act .active,none⟩,⟨.act (.own own),x⟩,⟨.act (.build name),.ok 0⟩,⟨.act (.setActive ⟨name,0⟩),()⟩,
    ⟨.unlock,()⟩]

def entering (name : String) : List ((r : Locked (Op Own)) × Locked.Reply (Reply Returned) r) :=
  [⟨.lock,()⟩,⟨.act .active,some ⟨name,0⟩⟩,⟨.unlock,()⟩]

def storing (name key value : String) (own : Own) (x : Returned own) :
    List ((r : Locked (Op Own)) × Locked.Reply (Reply Returned) r) :=
  creating name own x ++ [⟨.act (.put 0 (asBytes key) (asBytes value) true),.ok ()⟩]

def fetching (name key value : String) : List ((r : Locked (Op Own)) × Locked.Reply (Reply Returned) r) :=
  entering name ++ [⟨.act (.get 0 (asBytes key)),.ok (some (asBytes value))⟩]

def fresh : World := World.start fun _ => []

def openedAs (name : String) : State := (fresh.slot.build name).set ⟨name,0⟩

def filled (name key value : String) : World :=
  ⟨openedAs name,(fresh.data.write name (asBytes key) (some (asBytes value))).sync name⟩

/-- A service before any close has failed. -/
def ActsUnfailed (w : World) (r : Op Own) (x : Reply Returned r) (t : World) : Prop := Acts w r x t ∧ w.slot.failed = []

theorem live_openedAs (name : String) : (openedAs name).Live 0 := ⟨Nat.zero_lt_one,List.not_mem_nil⟩

theorem chain_creating {ι : Type} (i : ι) (name : String) (own : Own) (x : Returned own) :
    Chain (Alone (@ActsUnfailed Own Returned) i) (fresh,none) (creating name own x) (⟨openedAs name,fresh.data⟩,none) := by
  have hactive : @ActsUnfailed Own Returned fresh .active none fresh := ⟨⟨⟨rfl,rfl⟩,rfl⟩,rfl⟩
  have hown : @ActsUnfailed Own Returned fresh (.own own) x fresh := ⟨⟨rfl,rfl⟩,rfl⟩
  have hbuild : @ActsUnfailed Own Returned fresh (.build name) (.ok 0) ⟨fresh.slot.build name,fresh.data⟩ :=
    ⟨⟨⟨rfl,rfl⟩,fun _ => rfl⟩,rfl⟩
  have hset : @ActsUnfailed Own Returned ⟨fresh.slot.build name,fresh.data⟩ (.setActive ⟨name,0⟩) ()
      ⟨openedAs name,fresh.data⟩ := ⟨⟨rfl,rfl⟩,rfl⟩
  refine .cons (u := (fresh,some i)) ⟨rfl,rfl,rfl⟩ ?_
  refine .cons (u := (fresh,some i)) ⟨hactive,rfl⟩ ?_
  refine .cons (u := (fresh,some i)) ⟨hown,rfl⟩ ?_
  refine .cons (u := (⟨fresh.slot.build name,fresh.data⟩,some i)) ⟨hbuild,rfl⟩ ?_
  refine .cons (u := (⟨openedAs name,fresh.data⟩,some i)) ⟨hset,rfl⟩ ?_
  exact .cons ⟨rfl,rfl,rfl⟩ (.nil _)

theorem chain_entering {ι : Type} (i : ι) (name : String) (d : Data) :
    Chain (Alone (@ActsUnfailed Own Returned) i) (⟨openedAs name,d⟩,none) (entering name) (⟨openedAs name,d⟩,none) := by
  have hactive : @ActsUnfailed Own Returned ⟨openedAs name,d⟩ .active (some ⟨name,0⟩) ⟨openedAs name,d⟩ :=
    ⟨⟨⟨rfl,rfl⟩,rfl⟩,rfl⟩
  refine .cons (u := (⟨openedAs name,d⟩,some i)) ⟨rfl,rfl,rfl⟩ ?_
  refine .cons (u := (⟨openedAs name,d⟩,some i)) ⟨hactive,rfl⟩ ?_
  exact .cons ⟨rfl,rfl,rfl⟩ (.nil _)

theorem chain_put {ι : Type} (i : ι) (name key value : String) :
    Chain (Alone (@ActsUnfailed Own Returned) i) (⟨openedAs name,fresh.data⟩,none)
      [⟨.act (.put 0 (asBytes key) (asBytes value) true),.ok ()⟩] (filled name key value,none) := by
  have hput : @ActsUnfailed Own Returned ⟨openedAs name,fresh.data⟩ (.put 0 (asBytes key) (asBytes value) true) (.ok ())
      (filled name key value) := ⟨⟨rfl,live_openedAs name,fun _ => rfl⟩,rfl⟩
  exact .cons ⟨hput,rfl⟩ (.nil _)

theorem chain_get {ι : Type} (i : ι) (name key value : String) :
    Chain (Alone (@ActsUnfailed Own Returned) i) (filled name key value,none)
      [⟨.act (.get 0 (asBytes key)),.ok (some (asBytes value))⟩] (filled name key value,none) := by
  have hfound : some (asBytes value) = (filled name key value).data.content name (asBytes key) := by
    simp [filled, fresh, World.start, Data.content, Data.opening, Data.write, Data.sync, replay, applyWrite]
  have hget : @ActsUnfailed Own Returned (filled name key value) (.get 0 (asBytes key)) (.ok (some (asBytes value)))
      (filled name key value) := ⟨⟨rfl,live_openedAs name,rfl,fun _ => hfound⟩,rfl⟩
  exact .cons (u := (filled name key value,none)) ⟨hget,rfl⟩ (.nil _)

theorem chain_storing {ι : Type} (i : ι) (name key value : String) (own : Own) (x : Returned own) :
    Chain (Alone (@ActsUnfailed Own Returned) i) (fresh,none) (storing name key value own x)
      (filled name key value,none) :=
  (chain_creating i name own x).append (chain_put i name key value)

theorem chain_fetching {ι : Type} (i : ι) (name key value : String) :
    Chain (Alone (@ActsUnfailed Own Returned) i) (filled name key value,none) (fetching name key value)
      (filled name key value,none) :=
  (chain_entering i name _).append (chain_get i name key value)

theorem run_two {p : Bool → HandlerM Returned Out (Answer Adapter)}
    {tr tr' : List ((r : Locked (Op Own)) × Locked.Reply (Reply Returned) r)} {a a' : Answer Adapter} {w w' : World}
    (hp : Consumes (p false) tr [] (.ok a)) (hp' : Consumes (p true) tr' [] (.ok a'))
    (hc : Chain (Alone (@ActsUnfailed Own Returned) false) (fresh,none) tr (w,none))
    (hc' : Chain (Alone (@ActsUnfailed Own Returned) true) (w,none) tr' (w',none)) :
    ∃ es S es' T, Run Acts (start fresh p) es S ∧ Run Acts S es' T ∧
      OpensBeforeFailures ((es ++ es').map (Event.map World.slot)) ∧ S.thread false = .ok a ∧ T.thread true = .ok a' ∧
      T.state = w' := by
  obtain ⟨es,hfirst⟩ := Run.alone hp (S := start fresh p) rfl hc
  obtain ⟨es',hsecond⟩ := Run.alone hp' (S := ⟨w,none,Function.update p false (.ok a)⟩) (by simp) hc'
  have hrun := hfirst.trans hsecond
  refine ⟨_,_,_,_,hfirst.restrict fun e he => (hfirst.serves e he).1,
    hsecond.restrict fun e he => (hsecond.serves e he).1,?_,by simp [start],by simp,rfl⟩
  intro e he _
  obtain ⟨e',he',rfl⟩ := List.mem_map.mp he
  exact (hrun.serves e' he').2

theorem run_storing {p : Bool → HandlerM Returned Out (Answer Adapter)} {name key value : String} {own : Own}
    {x : Returned own} (hput : Consumes (p false) (storing name key value own x) [] (.ok .done))
    (hget : Consumes (p true) (fetching name key value) [] (.ok (.value key (some value)))) :
    ∃ es S es' T, Run Acts (start fresh p) es S ∧ Run Acts S es' T ∧
      OpensBeforeFailures ((es ++ es').map (Event.map World.slot)) ∧ S.thread false = .ok .done ∧
      T.thread true = .ok (.value key (some value)) ∧ T.state = filled name key value :=
  run_two hput hget (chain_storing false name key value own x) (chain_fetching true name key value)

theorem last_operation {p : HandlerM Returned Out (Answer Adapter)} {a : Answer Adapter}
    {tr : List ((r : Locked (Op Own)) × Locked.Reply (Reply Returned) r)} {r : Locked (Op Own)}
    {x : Locked.Reply (Reply Returned) r} (h : Consumes p (tr ++ [⟨r,x⟩]) [] (.ok a)) :
    ∃ k, Consumes p tr [] (.call r k) ∧ Consumes (.call r k) [⟨r,x⟩] [] (.ok a) := by
  obtain ⟨q,os₁,os₂,hos,hfirst,hlast⟩ := h.split
  obtain ⟨rfl,rfl⟩ := List.append_eq_nil_iff.mp hos.symm
  cases hlast with
  | call hk => exact ⟨_,hfirst,.call hk⟩

/-- A put on a fresh instance and a get, both of which have got the database before the
put is made. -/
theorem run_interleaved {p : Bool → HandlerM Returned Out (Answer Adapter)} {name key value : String} {own : Own}
    {x : Returned own} (hput : Consumes (p false) (storing name key value own x) [] (.ok .done))
    (hget : Consumes (p true) (fetching name key value) [] (.ok (.value key (some value)))) :
    ∃ es S es' T, Run Acts (start fresh p) es S ∧ Run Acts S es' T ∧
      OpensBeforeFailures ((es ++ es').map (Event.map World.slot)) ∧
      (∃ k, S.thread false = .call (.act (.put 0 (asBytes key) (asBytes value) true)) k) ∧
      (∃ k, S.thread true = .call (.act (.get 0 (asBytes key))) k) ∧ T.thread false = .ok .done ∧
      T.thread true = .ok (.value key (some value)) := by
  obtain ⟨k,hcreates,hputs⟩ := last_operation hput
  obtain ⟨l,henters,hgets⟩ := last_operation hget
  let put : HandlerM Returned Out (Answer Adapter) := .call (.act (.put 0 (asBytes key) (asBytes value) true)) k
  let get : HandlerM Returned Out (Answer Adapter) := .call (.act (.get 0 (asBytes key))) l
  let S₁ : Pool Bool World (Op Own) (Reply Returned) Out AppError (Answer Adapter) :=
    ⟨⟨openedAs name,fresh.data⟩,none,Function.update p false put⟩
  let S₂ : Pool Bool World (Op Own) (Reply Returned) Out AppError (Answer Adapter) :=
    ⟨⟨openedAs name,fresh.data⟩,none,Function.update S₁.thread true get⟩
  let S₃ : Pool Bool World (Op Own) (Reply Returned) Out AppError (Answer Adapter) :=
    ⟨filled name key value,none,Function.update S₂.thread false (.ok .done)⟩
  obtain ⟨es₁,h₁⟩ := Run.alone hcreates (S := start fresh p) rfl (chain_creating false name own x)
  obtain ⟨es₂,h₂⟩ := Run.alone henters (S := S₁) (by simp [S₁]) (chain_entering true name fresh.data)
  obtain ⟨es₃,h₃⟩ := Run.alone hputs (S := S₂) (by simp [S₁, S₂, put]) (chain_put false name key value)
  obtain ⟨es₄,h₄⟩ := Run.alone hgets (S := S₃) (by simp [S₂, S₃, get]) (chain_get true name key value)
  have hfirst := h₁.trans h₂
  have hsecond := h₃.trans h₄
  have hrun := hfirst.trans hsecond
  refine ⟨_,_,_,_,hfirst.restrict fun e he => (hfirst.serves e he).1,
    hsecond.restrict fun e he => (hsecond.serves e he).1,?_,⟨k,by simp [S₁, put]⟩,⟨l,by simp⟩,by simp [S₃],by simp⟩
  intro e he _
  obtain ⟨e',he',rfl⟩ := List.mem_map.mp he
  exact (hrun.serves e' he').2

end Storing

def storeAndFetchOn (name key value : String) (reading : Bool) : Request :=
  ⟨name,.ok (if reading then .get key else .put key value)⟩

section Witnesses
variable {name : String}

theorem object_puts (hvalid : ValidDatabaseName name) (key value : String) : Consumes
    (SlateDbObject.handleJoined (L := DoCache.LocalCacheHead.plain) [] (storeAndFetchOn name key value false))
    (storing name key value (.fromStorage name) (.ok ())) [] (.ok .done) := by
  simp only [SlateDbObject.handleJoined, SlateDbObject.handle, SlateDbObject.route, storeAndFetchOn, hvalid,
    not_true_eq_false, if_false]
  exact .call (.call (.call (.call (.call (.call (.call (.refl _)))))))

theorem object_gets (hvalid : ValidDatabaseName name) (key value : String) : Consumes
    (SlateDbObject.handleJoined (L := DoCache.LocalCacheHead.plain) [] (storeAndFetchOn name key value true))
    (fetching name key value) [] (.ok (.value key (some value))) := by
  have hfound : (some (asBytes value)).map fromUtf8Lossy = some value := by
    rw [Option.map_some, fromUtf8Lossy_asBytes]
  rw [← hfound]
  simp only [SlateDbObject.handleJoined, SlateDbObject.handle, SlateDbObject.route, storeAndFetchOn, hvalid,
    not_true_eq_false, if_false]
  refine .call (.call ?_)
  change Consumes (Prog.bind (release (if name ≠ name then _ else _)) _) _ _ _
  rw [if_neg (not_not.mpr rfl)]
  exact .call (.call (.refl _))

theorem process_puts (hvalid : ValidDatabaseName name) (key value : String) : Consumes
    (AppState.handleJoined [] (storeAndFetchOn name key value false))
    (storing name key value (.createDirAll (AppState.cacheDir name)) (.ok ())) [] (.ok .done) := by
  simp only [AppState.handleJoined, AppState.handle, storeAndFetchOn, AppState.database_valid hvalid]
  exact .call (.call (.call (.call (.call (.call (.call (.refl _)))))))

theorem process_gets (hvalid : ValidDatabaseName name) (key value : String) : Consumes
    (AppState.handleJoined [] (storeAndFetchOn name key value true)) (fetching name key value) []
    (.ok (.value key (some value))) := by
  have hfound : (some (asBytes value)).map fromUtf8Lossy = some value := by
    rw [Option.map_some, fromUtf8Lossy_asBytes]
  rw [← hfound]
  simp only [AppState.handleJoined, AppState.handle, storeAndFetchOn, AppState.database_valid hvalid]
  refine .call (.call ?_)
  change Consumes (Prog.bind (release (if name ≠ name then _ else _)) _) _ _ _
  rw [if_neg (not_not.mpr rfl)]
  exact .call (.call (.refl _))

theorem object_stored (hvalid : ValidDatabaseName name) (key value : String) : ∃ es S es' T, Run Acts
    (objectPool DoCache.LocalCacheHead.plain (fun _ => []) (fun _ => []) (storeAndFetchOn name key value)) es S ∧
    Run Acts S es' T ∧ OpensBeforeFailures ((es ++ es').map (Event.map World.slot)) ∧ S.thread false = .ok .done ∧
      T.thread true = .ok (.value key (some value)) ∧ T.state = filled name key value :=
  run_storing (p := fun i => SlateDbObject.handleJoined (L := DoCache.LocalCacheHead.plain) []
    (storeAndFetchOn name key value i)) (object_puts hvalid key value) (object_gets hvalid key value)

theorem process_stored (hvalid : ValidDatabaseName name) (key value : String) : ∃ es S es' T, Run Acts
    (processPool (fun _ => []) (fun _ => []) (storeAndFetchOn name key value)) es S ∧
    Run Acts S es' T ∧ OpensBeforeFailures ((es ++ es').map (Event.map World.slot)) ∧ S.thread false = .ok .done ∧
      T.thread true = .ok (.value key (some value)) ∧ T.state = filled name key value :=
  run_storing (p := fun i => AppState.handleJoined [] (storeAndFetchOn name key value i))
    (process_puts hvalid key value) (process_gets hvalid key value)

end Witnesses

abbrev storeAndFetch : Bool → Request := storeAndFetchOn "tenant" "key" "value"

theorem valid_tenant : ValidDatabaseName "tenant" := by decide

/-- However the requests to an instance interleave, it is one key-value store, if no
database is opened after a failed close. -/
theorem services_linear (L : DoCache.LocalCacheHead) {ι : Type} [DecidableEq ι]
    (texts : String → List (Write String String)) (schedules : ι → List ℕ) (requests : ι → Request) :
    (∀ es T, Run Acts (objectPool L texts schedules requests) es T →
      OpensBeforeFailures (es.map (Event.map World.slot)) →
        Linear SlateDbObject.scanLimit requests (stored texts) es T) ∧
    (∀ es T, Run Acts (processPool texts schedules requests) es T →
      OpensBeforeFailures (es.map (Event.map World.slot)) →
        Linear AppState.scanLimit requests (stored texts) es T) :=
  ⟨fun _ _ h hopen => object_linear h hopen,fun _ _ h hopen => process_linear h hopen⟩

/-- A put and a get that both have the database when the put is made. -/
theorem services_linear_interleaved :
    (∃ es S es' T, Run Acts (objectPool DoCache.LocalCacheHead.plain (fun _ => []) (fun _ => []) storeAndFetch) es S ∧
      Run Acts S es' T ∧ (∀ i, ∃ r k, S.thread i = .call (.act r) k ∧ ¬ r.Silent) ∧
      T.thread true = .ok (.value "key" (some "value")) ∧
      Linear SlateDbObject.scanLimit storeAndFetch (stored fun _ => []) (es ++ es') T) ∧
    (∃ es S es' T, Run Acts (processPool (fun _ => []) (fun _ => []) storeAndFetch) es S ∧
      Run Acts S es' T ∧ (∀ i, ∃ r k, S.thread i = .call (.act r) k ∧ ¬ r.Silent) ∧
      T.thread true = .ok (.value "key" (some "value")) ∧
      Linear AppState.scanLimit storeAndFetch (stored fun _ => []) (es ++ es') T) := by
  obtain ⟨hobject,hprocess⟩ :=
    services_linear DoCache.LocalCacheHead.plain (fun _ => []) (fun _ => []) storeAndFetch
  constructor
  · obtain ⟨es,S,es',T,hfirst,hrest,hopen,⟨k,hput⟩,⟨l,hget⟩,_,hvalue⟩ := run_interleaved
      (p := fun i => SlateDbObject.handleJoined (L := DoCache.LocalCacheHead.plain) [] (storeAndFetch i))
      (object_puts valid_tenant "key" "value") (object_gets valid_tenant "key" "value")
    refine ⟨es,S,es',T,hfirst,hrest,?_,hvalue,hobject _ T (hfirst.trans hrest) hopen⟩
    rintro (_ | _)
    · exact ⟨_,k,hput,not_false⟩
    · exact ⟨_,l,hget,not_false⟩
  · obtain ⟨es,S,es',T,hfirst,hrest,hopen,⟨k,hput⟩,⟨l,hget⟩,_,hvalue⟩ := run_interleaved
      (p := fun i => AppState.handleJoined [] (storeAndFetch i))
      (process_puts valid_tenant "key" "value") (process_gets valid_tenant "key" "value")
    refine ⟨es,S,es',T,hfirst,hrest,?_,hvalue,hprocess _ T (hfirst.trans hrest) hopen⟩
    rintro (_ | _)
    · exact ⟨_,k,hput,not_false⟩
    · exact ⟨_,l,hget,not_false⟩

end SlatedbCloudflare
