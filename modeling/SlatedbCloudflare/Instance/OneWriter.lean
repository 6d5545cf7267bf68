import SlatedbCloudflare.Instance.Shapes
import SlatedbCloudflare.DurableObject.Instance
import SlatedbCloudflare.Container.Instance

/-! # Live databases of the two services -/
namespace SlatedbCloudflare
open Programs Locks ObjectStore Utf8 Instance

section Building
variable {Own : Type} {Returned : Own → Type} {Out : Type}

/-- Both services open a database by one fallible request and `build`. -/
theorem opening_of_request (r : String → Own) (view : ∀ name, Returned (r name) → Except String Unit)
    (message : String → AppError) (openDb : String → OpM Returned Out ActiveDb)
    (heq : ∀ name, openDb name = .call (.own (r name)) fun x => do
      orFail message (view name x)
      let built : Except String ℕ ← Prog.ask (Op.build name)
      let db ← orFail message built
      pure ⟨name,db⟩) : Opening openDb := by
  intro cautious P Q name s hP herr hok
  rw [heq]
  rintro x t ⟨hs,_⟩
  cases hs
  refine ⟨hP,?_⟩
  beta_reduce
  generalize view name x = y
  rcases y with e | _
  · exact herr _
  · rintro (e | db) t ⟨hs,hc⟩
    · cases hs
      exact ⟨hP,herr _⟩
    · obtain ⟨rfl,rfl⟩ := hs
      exact hok fun hcautious => hc hcautious trivial

end Building

namespace SlateDbObject
variable {L : DoCache.LocalCacheHead}

theorem openDb_opening : Opening (openDb (L := L)) :=
  opening_of_request Own.fromStorage (fun _ x => x) slatedbError openDb fun _ => rfl

theorem onStorage_harmless {α : Type} (p : DoCache.CacheM L String α) :
    (onStorage p).Asks Op.Harmless := by
  induction p with
  | ok a => trivial
  | err e => trivial
  | emit o p ih => exact ih
  | call r k ih => exact ⟨trivial,ih⟩

theorem runBenchmarkOperation_harmless (db : ℕ) (value : Bytes) (operation : BenchmarkOperation)
    (m : BenchmarkBatchResponse) :
    (runBenchmarkOperation (L := L) db value operation m).Asks Op.Harmless := by
  refine ⟨trivial,fun started => ?_⟩
  rcases operation with ⟨kind,key⟩
  cases kind with
  | get =>
    refine ⟨trivial,fun x => (orFail_asks slatedbError x).bind fun found => ⟨trivial,fun now => ?_⟩⟩
    cases found <;> trivial
  | put => exact ⟨trivial,fun x => (orFail_asks slatedbError x).bind fun _ => ⟨trivial,fun _ => trivial⟩⟩

theorem activeMetrics_harmless : (activeMetrics (L := L)).Asks Op.Harmless := by
  refine ⟨trivial,fun active => ?_⟩
  cases active with
  | none => trivial
  | some current => exact ⟨trivial,fun _ => trivial⟩

theorem status_harmless (read : Bool × List SlateMetric) : (status (L := L) read).Asks Op.Harmless :=
  (onStorage_harmless _).bind fun _ => ⟨trivial,fun _ => ⟨trivial,fun _ => trivial⟩⟩

theorem route_shape {name : String} (hname : ValidDatabaseName name) (call : Call) :
    Shape twoNames openDb name (slotUse .spares ⟨name,.ok call⟩) (route (L := L) name call) := by
  rw [slotUse, if_neg (not_not_intro hname)]
  cases call with
  | put key value => exact .guarded fun db => putValue_harmless _ db key value
  | get key => exact .guarded fun db => getValue_harmless _ db key
  | delete key => exact .guarded fun db => deleteKey_harmless _ db key
  | scan text limit => exact .guarded fun db => scanItems_harmless _ db _ _
  | flush => exact .guarded fun db => flushMemTable_harmless _ db
  | benchmarkBatch value clients =>
    by_cases hvalid : ValidBatch clients
    · simp only [if_pos hvalid, route, if_neg (not_not_intro hvalid)]
      refine .guarded fun db => Prog.Asks.bind ?_ fun _ => trivial
      have hclient : ∀ operations, (runBenchmarkClient (L := L) db (asBytes value) operations).Asks Op.Harmless :=
        fun operations => runOperations_asks (runBenchmarkOperation_harmless db _) operations _
      exact runClients_asks hclient clients _
    · simp only [if_neg hvalid, route, if_pos hvalid]
      exact .rejected _
  | reopen => exact .replacing slatedbError nothing_harmless _
  | clearCache => exact .free ((onStorage_harmless _).bind fun _ => trivial)
  | stats => exact .reading activeMetrics_harmless status_harmless

theorem handle_shape (req : Request) :
    Shape twoNames openDb req.database (slotUse .spares req) (handle (L := L) req) := by
  obtain ⟨name,call⟩ := req
  by_cases hvalid : ValidDatabaseName name
  · rw [handle, if_neg (not_not_intro hvalid)]
    cases call with
    | ok call => exact route_shape hvalid call
    | error rejection =>
      rw [slotUse, if_neg (not_not_intro hvalid)]
      exact .rejected rejection
  · rw [handle, if_pos hvalid, slotUse, if_pos hvalid]
    exact .rejected _

theorem handle_keeps (req : Request) : Keeps (handle (L := L) req) :=
  (handle_shape req).keeps openDb_opening

end SlateDbObject

namespace AppState

theorem openDatabase_opening : Opening openDatabase :=
  opening_of_request (fun name => Own.createDirAll (cacheDir name)) (fun _ x => x) .internal
    openDatabase fun _ => rfl

theorem runBenchmarkOperation_harmless (db : ℕ) (value : Bytes) (operation : BenchmarkOperation)
    (m : BenchmarkBatchResponse) : (runBenchmarkOperation db value operation m).Asks Op.Harmless := by
  refine ⟨trivial,fun started => ?_⟩
  rcases operation with ⟨kind,key⟩
  cases kind with
  | get =>
    refine ⟨trivial,fun x => (orFail_asks _ x).bind fun found => ?_⟩
    cases found with
    | none => trivial
    | some _ => exact ⟨trivial,fun now => trivial⟩
  | put => exact ⟨trivial,fun x => (orFail_asks _ x).bind fun _ => ⟨trivial,fun _ => trivial⟩⟩

theorem removeCache_harmless (name : String) : (removeCache name).Asks Op.Harmless := by
  refine ⟨trivial,fun removed => ?_⟩
  rcases removed with (_ | _) | _ <;> trivial

theorem activeMetrics_harmless : activeMetrics.Asks Op.Harmless := by
  refine ⟨trivial,fun active => ?_⟩
  cases active with
  | none => trivial
  | some current => exact ⟨trivial,fun _ => ⟨trivial,fun _ => trivial⟩⟩

theorem status_harmless (name : String) (read : Bool × Counters × List SlateMetric) :
    (status name read).Asks Op.Harmless :=
  ⟨trivial,fun size => (orFail_asks _ size).bind fun _ => trivial⟩

theorem handle_invalid {name : String} (h : ¬ ValidDatabaseName name) (call : Except AppError Call) :
    ∃ e, handle ⟨name,call⟩ = .err e := by
  have hcheck : ∀ {α : Type} (f : Unit → RouteM α),
      validateDatabaseName name >>= f = .err (.badRequest "invalid database name") := by
    intro α f
    rw [validateDatabaseName, if_neg h]
    rfl
  have hdatabase : database name = .err (.badRequest "invalid database name") := hcheck _
  rcases call with rejection | call
  · exact ⟨rejection,rfl⟩
  cases call with
  | benchmarkBatch value clients =>
    change ∃ e, benchmarkBatch name value clients = .err e
    by_cases hbatch : ValidBatch clients
    · rw [benchmarkBatch, if_neg (not_not_intro hbatch), hdatabase]
      exact ⟨_,rfl⟩
    · rw [benchmarkBatch, if_pos hbatch]
      exact ⟨_,rfl⟩
  | reopen | clearCache | stats => exact ⟨_,hcheck _⟩
  | _ =>
    simp only [handle, hdatabase]
    exact ⟨_,rfl⟩

theorem handle_shape (req : Request) :
    Shape twoNames openDatabase req.database (slotUse .replaces req) (handle req) := by
  obtain ⟨name,call⟩ := req
  by_cases hvalid : ValidDatabaseName name
  swap
  · obtain ⟨e,he⟩ := handle_invalid hvalid call
    rw [he, slotUse, if_pos hvalid]
    exact .rejected e
  have hchecked : validateDatabaseName name = pure () := if_pos hvalid
  have hguarded : ∀ {f : ℕ → ProcessM (Answer Counters)}, (∀ db, (f db).Asks Op.Harmless) →
      Shape twoNames openDatabase name .opens (do let db ← database name; free (f db)) := by
    intro f hf
    rw [database, hchecked]
    exact .guarded hf
  rw [slotUse, if_neg (not_not_intro hvalid)]
  rcases call with rejection | call
  · exact .rejected rejection
  cases call with
  | put key value => exact hguarded fun db => putValue_harmless _ db key value
  | get key => exact hguarded fun db => getValue_harmless _ db key
  | delete key => exact hguarded fun db => deleteKey_harmless _ db key
  | scan text limit => exact hguarded fun db => scanItems_harmless _ db _ _
  | flush => exact hguarded fun db => flushMemTable_harmless _ db
  | benchmarkBatch value clients =>
    change Shape _ _ _ _ (benchmarkBatch name value clients)
    by_cases hbatch : ValidBatch clients
    · simp only [if_pos hbatch, benchmarkBatch, if_neg (not_not_intro hbatch)]
      refine hguarded fun db => Prog.Asks.bind ?_ fun _ => trivial
      have hclient : ∀ operations, (runBenchmarkClient db (asBytes value) operations).Asks Op.Harmless :=
        fun operations => runOperations_asks (runBenchmarkOperation_harmless db _) operations _
      exact runClients_asks hclient clients _
    · simp only [if_neg hbatch, benchmarkBatch, if_pos hbatch]
      exact .rejected _
  | reopen =>
    change Shape _ _ _ _ (reopen name)
    rw [reopen, hchecked]
    exact .replacing .internal nothing_harmless _
  | clearCache =>
    change Shape _ _ _ _ (clearCache name)
    rw [clearCache, hchecked]
    exact .replacing .internal (removeCache_harmless name) _
  | stats =>
    change Shape _ _ _ _ (stats name)
    rw [stats, hchecked]
    exact .reading activeMetrics_harmless (status_harmless name)

theorem handle_keeps (req : Request) : Keeps (handle req) :=
  (handle_shape req).keeps openDatabase_opening

end AppState

/-- In every run of any requests to either service, one database is live throughout
exactly if no database is opened after a failed close. -/
theorem one_live_database_iff (L : DoCache.LocalCacheHead) {ι : Type} [DecidableEq ι]
    (requests : ι → Request) :
    (∀ es T, Run Does (start State.empty fun i => SlateDbObject.handle (L := L) (requests i)) es T →
      (LiveThroughout es ↔ OpensBeforeFailures es)) ∧
    (∀ es T, Run Does (start State.empty fun i => AppState.handle (requests i)) es T →
      (LiveThroughout es ↔ OpensBeforeFailures es)) :=
  ⟨fun _ _ h => liveThroughout_iff (fun _ => SlateDbObject.handle_keeps _) h,
    fun _ _ h => liveThroughout_iff (fun _ => AppState.handle_keeps _) h⟩

section FailedClose
variable {Own : Type} {Returned : Own → Type} {Out α : Type}

def twiceOpened : State := ⟨some ⟨"tenant",1⟩,["tenant","tenant"],[],[0]⟩

theorem twiceOpened_not_oneLive : ¬ OneLive twiceOpened := by
  intro hone
  have hfirst : twiceOpened.Live 0 := ⟨by decide,by decide⟩
  have hsecond : twiceOpened.Live 1 := ⟨by decide,by decide⟩
  exact absurd (hone.unique 0 1 hfirst hsecond) (by decide)

def opening (name : String) (own : Own) (x : Returned own) (db : ℕ) :
    List ((r : Locked (Op Own)) × Locked.Reply (Reply Returned) r) :=
  [⟨.lock,()⟩,⟨.act .takeActive,none⟩,⟨.act (.own own),x⟩,⟨.act (.build name),.ok db⟩,
    ⟨.act (.setActive ⟨name,db⟩),()⟩,⟨.unlock,()⟩]

def unclosing : List ((r : Locked (Op Own)) × Locked.Reply (Reply Returned) r) :=
  [⟨.lock,()⟩,⟨.act .takeActive,some ⟨"tenant",0⟩⟩,⟨.act (.close 0),.error "not durable"⟩,⟨.unlock,()⟩]

theorem chain_opening {ι : Type} (i : ι) {s : State} (hs : s.active = none) (name : String) (own : Own)
    (x : Returned own) : Chain (Alone Does i) (s,none) (opening name own x s.opened.length)
      ((s.build name).set ⟨name,s.opened.length⟩,none) := by
  have htake : s.take = s := by
    cases s
    cases hs
    rfl
  refine .cons (u := (s,some i)) ⟨rfl,rfl,rfl⟩ ?_
  refine .cons (u := (s,some i)) ⟨⟨hs.symm,htake.symm⟩,rfl⟩ ?_
  refine .cons (u := (s,some i)) ⟨rfl,rfl⟩ ?_
  refine .cons (u := (s.build name,some i)) ⟨⟨rfl,rfl⟩,rfl⟩ ?_
  refine .cons (u := ((s.build name).set ⟨name,s.opened.length⟩,some i)) ⟨rfl,rfl⟩ ?_
  exact .cons ⟨rfl,rfl,rfl⟩ (.nil _)

theorem run_reopening {p q u v : HandlerM Returned Out α} {own : Own} {x : Returned own}
    (hfirst : Consumes p (opening "tenant" own x 0) [] q) (hfailed : Consumes p unclosing [] u)
    (hsecond : Consumes p (opening "tenant" own x 1) [] v) : ∃ es T,
      Run Does (start State.empty fun _ : Fin 3 => p) es T ∧ T.state = twiceOpened := by
  have hfail : Chain (Alone (@Does Own Returned) (1 : Fin 3))
      ((State.empty.build "tenant").set ⟨"tenant",0⟩,none) unclosing
      (⟨none,["tenant"],[],[0]⟩,none) :=
    .cons (u := (_,some 1)) ⟨rfl,rfl,rfl⟩ (.cons (u := (_,some 1)) ⟨⟨rfl,rfl⟩,rfl⟩
      (.cons (u := (_,some 1)) ⟨rfl,rfl⟩ (.cons ⟨rfl,rfl,rfl⟩ (.nil _))))
  obtain ⟨es₁,hrun₁⟩ := Run.alone hfirst (S := start State.empty fun _ : Fin 3 => p) rfl
    (chain_opening (0 : Fin 3) rfl _ _ _)
  obtain ⟨es₂,hrun₂⟩ := Run.alone hfailed (i := (1 : Fin 3))
    (S := ⟨_,none,Function.update (fun _ => p) 0 q⟩) (by simp) hfail
  obtain ⟨es₃,hrun₃⟩ := Run.alone hsecond (i := (2 : Fin 3))
    (S := ⟨_,none,Function.update (Function.update (fun _ => p) 0 q) 1 u⟩) (by simp)
    (chain_opening (s := ⟨none,["tenant"],[],[0]⟩) 2 rfl _ _ _)
  exact ⟨_,_,(hrun₁.trans hrun₂).trans hrun₃,rfl⟩

theorem not_liveThroughout {p : HandlerM Returned Out α} {es : List (Event (Fin 3) State (Op Own) (Reply Returned))}
    {T : Pool (Fin 3) State (Op Own) (Reply Returned) Out AppError α}
    (h : Run Does (start State.empty fun _ => p) es T) (hT : T.state = twiceOpened) :
    ¬ LiveThroughout es := by
  intro hlive
  have hempty : Settled True State.empty := .empty
  have hstart := hempty.passing.one trivial
  have hlast := h.last hstart fun e he => (hlive e he).2
  rw [hT] at hlast
  exact twiceOpened_not_oneLive hlast

theorem object_reopens (L : DoCache.LocalCacheHead) {name : String} (hname : ValidDatabaseName name) :
    SlateDbObject.handle (L := L) ⟨name,.ok .reopen⟩ =
      withLock (replace SlateDbObject.slatedbError (pure ()) SlateDbObject.openDb name) >>=
        fun _ => pure .done :=
  if_neg (not_not_intro hname)

theorem process_reopens {name : String} (hname : ValidDatabaseName name) :
    AppState.handle ⟨name,.ok .reopen⟩ =
      withLock (replace .internal (pure ()) AppState.openDatabase name) >>= fun _ => pure .done := by
  have hcheck : AppState.validateDatabaseName name = pure () := if_pos hname
  rw [AppState.handle, AppState.reopen, hcheck]
  rfl

theorem object_opens (L : DoCache.LocalCacheHead) {name : String} (hname : ValidDatabaseName name)
    (db : ℕ) : Consumes (SlateDbObject.handle (L := L) ⟨name,.ok .reopen⟩)
      (opening name (.fromStorage name) (.ok ()) db) [] (.ok .done) := by
  rw [object_reopens L hname]
  exact .call (.call (.call (.call (.call (.call (.refl _))))))

theorem process_opens {name : String} (hname : ValidDatabaseName name) (db : ℕ) :
    Consumes (AppState.handle ⟨name,.ok .reopen⟩)
      (opening name (.createDirAll (AppState.cacheDir name)) (.ok ()) db) [] (.ok .done) := by
  rw [process_reopens hname]
  exact .call (.call (.call (.call (.call (.call (.refl _))))))

theorem object_reopening (L : DoCache.LocalCacheHead) : ∃ es T, Run Does (start State.empty
    fun _ : Fin 3 => SlateDbObject.handle (L := L) ⟨"tenant",.ok .reopen⟩) es T ∧
      T.state = twiceOpened := by
  have hname : ValidDatabaseName "tenant" := by decide
  have hfails : Consumes (SlateDbObject.handle (L := L) ⟨"tenant",.ok .reopen⟩) unclosing []
      (.err (SlateDbObject.slatedbError "not durable")) := by
    rw [object_reopens L hname]
    exact .call (.call (.call (.call (.refl _))))
  exact run_reopening (object_opens L hname 0) hfails (object_opens L hname 1)

theorem process_reopening : ∃ es T, Run Does (start State.empty
    fun _ : Fin 3 => AppState.handle ⟨"tenant",.ok .reopen⟩) es T ∧ T.state = twiceOpened := by
  have hname : ValidDatabaseName "tenant" := by decide
  have hfails : Consumes (AppState.handle ⟨"tenant",.ok .reopen⟩) unclosing []
      (.err (.internal "not durable")) := by
    rw [process_reopens hname]
    exact .call (.call (.call (.call (.refl _))))
  exact run_reopening (process_opens hname 0) hfails (process_opens hname 1)

/-- Three requests to reopen one database, the second of which cannot close it, leave
two live databases in either service. -/
theorem reopening_opens_second :
    (∀ L : DoCache.LocalCacheHead, ¬ ∀ (requests : Fin 3 → Request) es T,
      Run Does (start State.empty fun i => SlateDbObject.handle (L := L) (requests i)) es T →
        LiveThroughout es) ∧
    ¬ ∀ (requests : Fin 3 → Request) es T,
      Run Does (start State.empty fun i => AppState.handle (requests i)) es T → LiveThroughout es := by
  constructor
  · intro L hlaw
    obtain ⟨es,T,hrun,hT⟩ := object_reopening L
    exact not_liveThroughout hrun hT (hlaw (fun _ => ⟨"tenant",.ok .reopen⟩) es T hrun)
  · intro hlaw
    obtain ⟨es,T,hrun,hT⟩ := process_reopening
    exact not_liveThroughout hrun hT (hlaw (fun _ => ⟨"tenant",.ok .reopen⟩) es T hrun)

end FailedClose

end SlatedbCloudflare
