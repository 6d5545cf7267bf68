import SlatedbCloudflare.Instance.Measurements
import SlatedbCloudflare.Instance.Routing

/-! # What was stored is found

If no request deletes, then what a request has stored is there for all that come after
it. A batch that reads nothing else succeeds exactly if no call that it makes fails.
-/
namespace SlatedbCloudflare.Instance
open Programs Locks ObjectStore Utf8 Histories Joins

def Call.Spares : Call → Prop
  | .delete _ => False
  | _ => True

def Call.Stores (key : String) : Call → Prop
  | .put k _ => k = key
  | .benchmarkBatch _ clients => ∃ operations ∈ clients, ⟨.put,key⟩ ∈ operations
  | _ => False

section Commands
variable {ι : Type} {database key : String} {cs : List TextCommand}

theorem performs_spares {value : String} {o : BenchmarkOperation} {c : TextCommand} (h : Performs database value o c) :
    ∀ n k, c ≠ .delete n k := by
  obtain ⟨kind,key⟩ := o
  cases kind with
  | get =>
    obtain ⟨found,rfl⟩ := h
    exact fun n k hc => by cases hc
  | put =>
    cases h
    exact fun n k hc => by cases hc

theorem runs_spares {value : String} {operations : ℕ → List BenchmarkOperation} (h : Runs database value operations cs) :
    ∀ c ∈ cs, ∀ n k, c ≠ .delete n k := by
  obtain ⟨each,hinter,hall⟩ := h
  intro c hc
  obtain ⟨i,hi⟩ := hinter.mem.mp hc
  obtain ⟨j,hj,rfl⟩ := List.getElem_of_mem hi
  have hlength := (hall i).length_eq
  exact performs_spares ((hall i).get (by omega) hj)

theorem Begun.spares {call : Except AppError Call} (h : Begun database call cs) (hcall : ∀ c, call = .ok c → c.Spares) :
    ∀ c ∈ cs, ∀ n k, c ≠ .delete n k := by
  rcases call with rejection | call
  · cases h
    simp
  cases call with
  | benchmarkBatch value clients =>
    obtain ⟨n,hruns⟩ := h
    exact runs_spares hruns
  | delete key => exact (hcall _ rfl).elim
  | put key value =>
    rcases h with rfl | rfl <;> simp
  | get key =>
    rcases h with rfl | ⟨found,rfl⟩ <;> simp
  | scan start limit =>
    rcases h with rfl | ⟨entries,rfl⟩ <;> simp
  | reopen | flush | clearCache | stats =>
    have hnil : cs = [] := h.elim id id
    simp [hnil]

theorem Answered.stores {Adapter : Type} {limit : Option ℕ → ℕ} {call : Call} {a : Answer Adapter}
    (h : Answered limit database call cs a) (hs : call.Stores key) : ∃ value, .put database key value ∈ cs := by
  cases call with
  | put k value =>
    cases hs
    cases a with
    | done => exact ⟨value,by rw [show cs = _ from h]; exact List.mem_singleton.mpr rfl⟩
    | _ => exact h.elim
  | benchmarkBatch value clients =>
    cases a with
    | batch _ =>
      obtain ⟨operations,hmem,hput⟩ := hs
      obtain ⟨⟨each,hinter,hall⟩,_⟩ := h
      obtain ⟨i,hi,rfl⟩ := List.getElem_of_mem hmem
      have hget : clients.getD i [] = clients[i] := by rw [List.getD_eq_getElem?_getD, List.getElem?_eq_getElem hi]; rfl
      have hclient := hall i
      simp only [hget] at hclient
      obtain ⟨j,hj,hop⟩ := List.getElem_of_mem hput
      have hj' : j < (each i).length := hclient.length_eq ▸ hj
      have hperforms := hclient.get hj hj'
      rw [List.get_eq_getElem, List.get_eq_getElem, hop] at hperforms
      refine ⟨value,?_⟩
      rw [← show (each i)[j] = .put database key value from hperforms]
      exact hinter.mem.mpr ⟨i,List.getElem_mem hj'⟩
    | _ => exact h.elim
  | _ => exact hs.elim

end Commands

section Batches
variable {Own : Type} {Returned : Own → Type} {Out : Type}

/-- The reply lets a batch on the database go on. -/
def Fine (served : (r : Own) → Returned r → Prop) (name : String) : (r : Op Own) × Reply Returned r → Prop
  | ⟨.active,some a⟩ => a.name = name
  | ⟨.build _,x⟩ => ∃ db, x = .ok db
  | ⟨.get _ _,x⟩ => ∃ bytes, x = .ok (some bytes)
  | ⟨.put _ _ _ _,x⟩ => x = .ok ()
  | ⟨.own r,x⟩ => served r x
  | _ => True

def Failed (served : (r : Own) → Returned r → Prop) : (r : Op Own) × Reply Returned r → Prop
  | ⟨.build _,x⟩ => ∃ error, x = .error error
  | ⟨.get _ _,x⟩ => ∃ error, x = .error error
  | ⟨.put _ _ _ _,x⟩ => ∃ error, x = .error error
  | ⟨.own r,x⟩ => ¬ served r x
  | _ => False

variable {served : (r : Own) → Returned r → Prop} {name : String} {mixed : AppError}
  {openDb : String → OpM Returned Out ActiveDb}

theorem currentOr_strict (ho : (openDb name).Strict (Fine served name)) :
    (currentOr mixed openDb name : OpM Returned Out ℕ).Strict (Fine served name) := by
  intro active
  cases active with
  | none =>
    have hinstall : (install openDb name).Strict (Fine served name) :=
      ho.bind fun _ => .of_good (fun _ => trivial) fun _ => trivial
    exact ⟨fun _ => hinstall.bind fun _ => trivial,fun h => absurd trivial h⟩
  | some current =>
    change (_ → Prog.Strict _ (if current.name ≠ name then .err mixed else pure current.db)) ∧
      (_ → Prog.Fails (if current.name ≠ name then .err mixed else pure current.db))
    have hfine : @Fine Own Returned served name ⟨.active,some current⟩ ↔ current.name = name := Iff.rfl
    rw [hfine]
    constructor
    · intro h
      rw [if_neg (not_not_intro h)]
      trivial
    · intro h
      rw [if_pos h]
      trivial

theorem runOperations_strict {run : BenchmarkOperation → BenchmarkBatchResponse → OpM Returned Out BenchmarkBatchResponse}
    {P : (r : Op Own) × Reply Returned r → Prop} (hr : ∀ o m, (run o m).Strict P) (operations : List BenchmarkOperation)
    (m : BenchmarkBatchResponse) : (runOperations run operations m).Strict P := by
  induction operations generalizing m with
  | nil => trivial
  | cons o rest ih => exact (hr o m).bind ih

theorem batch_strict {Adapter : Type} {run : ℕ → BenchmarkOperation → BenchmarkBatchResponse → OpM Returned Out BenchmarkBatchResponse}
    (ho : (openDb name).Strict (Fine served name)) (hr : ∀ db o m, (run db o m).Strict (Fine served name))
    (schedule : List ℕ) (clients : List (List BenchmarkOperation)) :
    (do
      let db ← withLock (currentOr mixed openDb name)
      free do
        let measurements ← joinClients schedule (fun operations => runOperations (run db) operations .empty) clients
        pure (.batch measurements) : HandlerM Returned Out (Answer Adapter)).Strict (Locked.Good (Fine served name)) := by
  refine (strict_withLock (currentOr_strict ho)).bind fun db => strict_free ?_
  have hall : ∀ p ∈ clients.map fun operations => runOperations (run db) operations .empty,
      p.Strict (Fine served name) := by
    intro p hp
    obtain ⟨operations,_,rfl⟩ := List.mem_map.mp hp
    exact runOperations_strict (hr db) operations _
  have hjoin : (joinClients schedule (fun operations => runOperations (run db) operations .empty) clients).Strict
      (Fine served name) := (joinAll_strict schedule hall).bind fun _ => trivial
  exact hjoin.bind fun _ => trivial

def ReadsFor (o : BenchmarkOperation) : Op Own → Prop
  | .get _ key => o.operation = .get ∧ asBytes o.key = key
  | _ => True

/-- The gets are of keys that some client reads. -/
def Reads (clients : List (List BenchmarkOperation)) : Op Own → Prop
  | .get _ key => ∃ operations ∈ clients, ∃ o ∈ operations, o.operation = .get ∧ asBytes o.key = key
  | _ => True

theorem runOperations_reads {run : BenchmarkOperation → BenchmarkBatchResponse → OpM Returned Out BenchmarkBatchResponse}
    {P : Op Own → Prop} {operations : List BenchmarkOperation} (hr : ∀ o ∈ operations, ∀ m, (run o m).Asks P)
    (m : BenchmarkBatchResponse) : (runOperations run operations m).Asks P := by
  induction operations generalizing m with
  | nil => trivial
  | cons o rest ih =>
    obtain ⟨ho,hrest⟩ := List.forall_mem_cons.mp hr
    exact (ho m).bind fun m' => ih hrest m'

theorem joinClients_reads {run : BenchmarkOperation → BenchmarkBatchResponse → OpM Returned Out BenchmarkBatchResponse}
    {clients : List (List BenchmarkOperation)}
    (hr : ∀ o m, (run o m).Asks (ReadsFor o)) (schedule : List ℕ) :
    (joinClients schedule (fun operations => runOperations run operations .empty) clients).Asks (Reads clients) := by
  have hall : ∀ p ∈ clients.map fun operations => runOperations run operations .empty, p.Asks (Reads clients) := by
    intro p hp
    obtain ⟨operations,hmem,rfl⟩ := List.mem_map.mp hp
    apply runOperations_reads
    intro o ho m
    apply (hr o m).imp
    intro r h
    cases r with
    | get db key => exact ⟨operations,hmem,o,ho,h⟩
    | _ => trivial
  exact (joinAll_asks schedule hall).bind fun _ => trivial

theorem batch_reads {Adapter : Type} {run : ℕ → BenchmarkOperation → BenchmarkBatchResponse → OpM Returned Out BenchmarkBatchResponse}
    (ho : (openDb name).Asks Op.Hushed) (hr : ∀ db o m, (run db o m).Asks (ReadsFor o)) (schedule : List ℕ)
    (clients : List (List BenchmarkOperation)) :
    (do
      let db ← withLock (currentOr mixed openDb name)
      free do
        let measurements ← joinClients schedule (fun operations => runOperations (run db) operations .empty) clients
        pure (.batch measurements) : HandlerM Returned Out (Answer Adapter)).Asks
          fun r => ∀ r', r = .act r' → Reads clients r' := by
  have hcurrent : (currentOr mixed openDb name : OpM Returned Out ℕ).Asks
      fun r => ∀ r', Locked.act r = .act r' → Reads clients r' := by
    apply (currentOr_hushed ho).imp
    rintro r hr r' ⟨⟩
    cases r with
    | get => exact hr.elim
    | _ => trivial
  refine (asks_of_withLock (by simp) (by simp) hcurrent).bind fun db => asks_of_free ?_
  have hacted : (joinClients schedule (fun operations => runOperations (run db) operations .empty) clients :
      OpM Returned Out _).Asks fun r => ∀ r', Locked.act r = .act r' → Reads clients r' := by
    apply (joinClients_reads (hr db) schedule).imp
    rintro r h r' ⟨⟩
    exact h
  exact hacted.bind fun _ => trivial

end Batches

section Runs
variable {ι Own : Type} {Returned : Own → Type} {Out Adapter : Type} [DecidableEq ι] {limit : Option ℕ → ℕ}
  {requests : ι → Request} {p : ι → HandlerM Returned Out (Answer Adapter)} {name : String}
  {texts : String → List (Write String String)} {es es' : Events ι Returned}
  {S T : Pool ι World (Op Own) (Reply Returned) Out AppError (Answer Adapter)}

theorem Does.opened_names {r : Op Own} {x : Reply Returned r} {s t : State} (h : Does s r x t) (hr : Names name (.act r))
    (hs : ∀ m ∈ s.opened, m = name) : ∀ m ∈ t.opened, m = name := by
  cases r with
  | build other =>
    cases hr
    cases x with
    | ok db =>
      obtain ⟨_,rfl⟩ := h
      intro m hm
      rcases List.mem_append.mp hm with hm | hm
      · exact hs m hm
      · exact List.mem_singleton.mp hm
    | error e =>
      cases h
      exact hs
  | close db =>
    cases x with
    | ok _ | error e =>
      cases h
      exact hs
  | active | takeActive =>
    obtain ⟨_,rfl⟩ := h
    exact hs
  | _ =>
    cases h
    exact hs

/-- An instance that is asked for one name opens no other one. -/
theorem Sound.opened_names (h : Sound p (World.start texts) es T) (hp : ∀ i, (p i).Asks (Names name)) :
    ∀ e ∈ es, ∀ m ∈ e.before.slot.opened, m = name := by
  have hkept := h.path.invariant (I := fun w => ∀ m ∈ w.slot.opened, m = name) (by simp [World.start, State.empty])
    fun e he hopened => by
      obtain ⟨tr,os,hc,hevs⟩ := h.threads e.caller
      have hmem : e.answer ∈ acts tr := hevs ▸ List.mem_map_of_mem (mem_own.mpr ⟨he,rfl⟩)
      have hnames := hc.asks (hp e.caller) _ (mem_acts hmem)
      exact Does.opened_names (h.behaved e he).slot hnames hopened
  exact fun e he => (hkept.2 e he).1

theorem Sound.on_all (h : Sound p (World.start texts) es T) (hp : ∀ i, (p i).Asks (Names name)) (db : ℕ) :
    On name db es := by
  refine ⟨h.behaved,h.cautious,fun e he hlive => ?_⟩
  have hlt : db < e.before.slot.opened.length := hlive.1
  have hget : e.before.slot.opened.getD db "" = e.before.slot.opened[db] := by
    rw [List.getD_eq_getElem?_getD, List.getElem?_eq_getElem hlt, Option.getD_some]
  rw [World.name, hget]
  exact h.opened_names hp e he _ (List.getElem_mem hlt)

def Stored (requests : ι → Request) (S : Pool ι World (Op Own) (Reply Returned) Out AppError (Answer Adapter))
    (key : String) : Prop :=
  ∃ i a call, S.thread i = .ok a ∧ (requests i).call = .ok call ∧ call.Stores key

/-- After the events `es` a get finds what was stored before, and a batch that reads no
other keys succeeds exactly if none of its calls fails. -/
structure Finds (served : (r : Own) → Returned r → Prop) (requests : ι → Request) (es : Events ι Returned)
    (S : Pool ι World (Op Own) (Reply Returned) Out AppError (Answer Adapter)) (es' : Events ι Returned)
    (T : Pool ι World (Op Own) (Reply Returned) Out AppError (Answer Adapter)) : Prop where
  values : ∀ i key a, own i es = [] → (requests i).call = .ok (.get key) → Stored requests S key →
    T.thread i = .ok a → ∃ value, a = .value key (some value)
  batches : ∀ i value clients result, own i es = [] → (requests i).call = .ok (.benchmarkBatch value clients) →
    ValidBatch clients →
    (∀ operations ∈ clients, ∀ o ∈ operations, o.operation = .get → Stored requests S o.key) →
    T.thread i = .ofResult result → ((∃ a, result = .ok a) ↔ ∀ e ∈ own i es', ¬ Failed served e.answer)

omit [DecidableEq ι] in
theorem found_of_put {m : Store String String String} {key value : String} {found : Option String}
    {e : Event ι World (Op Own) (Reply Returned)} (hlegal : Legal textKeys m (told (es ++ es')))
    (hspares : ∀ c ∈ told (es ++ es'), ∀ n k, c ≠ .delete n k) (hput : .put name key value ∈ told es) (he : e ∈ es')
    (hshown : shown e = some (.get name key found)) : found ≠ none := by
  obtain ⟨before,after,rfl⟩ := List.append_of_mem he
  have htold : told (es ++ (before ++ e :: after)) = (told es ++ told before) ++ .get name key found :: told after := by
    rw [told, List.filterMap_append, List.filterMap_append, List.filterMap_cons_some hshown, List.append_assoc]
  rw [htold] at hlegal hspares
  rw [← Legal.get hlegal]
  apply present_of_put (List.mem_append_left _ hput)
  exact fun c hc => hspares c (List.mem_append_left _ hc) name key

theorem Linear.spares {m : Store String String String} (h : Linear limit requests m es T)
    (hcalls : ∀ i call, (requests i).call = .ok call → call.Spares) : ∀ c ∈ told es, ∀ n k, c ≠ .delete n k := by
  intro c hc
  obtain ⟨e,he,hshown⟩ := List.mem_filterMap.mp hc
  have hown : c ∈ told (own e.caller es) := List.mem_filterMap.mpr ⟨e,mem_own.mpr ⟨he,rfl⟩,hshown⟩
  exact (h.begun e.caller).spares (hcalls e.caller) c hown

theorem Linear.stored {m : Store String String String} (h : Linear limit requests m es S)
    (hname : ∀ i, (requests i).database = name) {key : String} (hs : Stored requests S key) :
    ∃ value, .put name key value ∈ told es := by
  obtain ⟨i,a,call,hi,hcall,hstores⟩ := hs
  obtain ⟨call',hcall',hanswered⟩ := h.answered i a hi
  cases hcall'.symm.trans hcall
  obtain ⟨value,hput⟩ := hanswered.stores hstores
  rw [hname i] at hput
  obtain ⟨e,he,hshown⟩ := List.mem_filterMap.mp hput
  exact ⟨value,List.mem_filterMap.mpr ⟨e,(mem_own.mp he).1,hshown⟩⟩

/-- What one part of a run stored is found in the next. -/
theorem Sound.finds {served : (r : Own) → Returned r → Prop} (h : Sound p (World.start texts) (es ++ es') T)
    (hfirst : Linear limit requests (stored texts) es S)
    (hwhole : Linear limit requests (stored texts) (es ++ es') T) (hname : ∀ i, (requests i).database = name)
    (hcalls : ∀ i call, (requests i).call = .ok call → call.Spares) (hp : ∀ i, (p i).Asks (Names name))
    (hstrict : ∀ i value clients, (requests i).call = .ok (.benchmarkBatch value clients) → ValidBatch clients →
      (p i).Strict (Locked.Good (Fine served name)))
    (hreads : ∀ i value clients, (requests i).call = .ok (.benchmarkBatch value clients) → ValidBatch clients →
      (p i).Asks fun r => ∀ r', r = .act r' → Reads clients r') :
    Finds served requests es S es' T := by
  have hspares := hwhole.spares hcalls
  have hlater : ∀ i, own i es = [] → ∀ e ∈ own i (es ++ es'), e ∈ es' := by
    intro i hi e he
    rw [own_append, hi, List.nil_append] at he
    exact (mem_own.mp he).1
  constructor
  · intro i key a hi hcall hs ha
    obtain ⟨call,hcall',hanswered⟩ := hwhole.answered i a ha
    cases hcall'.symm.trans hcall
    cases a with
    | value answered found =>
      obtain ⟨rfl,htold⟩ := hanswered
      rw [hname i] at htold
      have hmem : Command.get name answered found ∈ told (own i (es ++ es')) := by
        rw [htold]
        exact List.mem_singleton.mpr rfl
      obtain ⟨e,he,hshown⟩ := List.mem_filterMap.mp hmem
      obtain ⟨value,hput⟩ := hfirst.stored hname hs
      have hfound := found_of_put hwhole.legal hspares hput (hlater i hi e he) hshown
      obtain ⟨v,rfl⟩ := Option.ne_none_iff_exists'.mp hfound
      exact ⟨v,rfl⟩
    | _ => exact hanswered.elim
  · intro i value clients result hi hcall hbatch hkeys hresult
    obtain ⟨tr,os,hc,hevs⟩ := h.threads i
    rw [hresult] at hc
    have hr : Returns (p i) tr os result := hc
    rw [hr.strict (hstrict i value clients hcall hbatch), forall_acts, hevs]
    have hown : own i (es ++ es') = own i es' := by rw [own_append, hi, List.nil_append]
    rw [hown, List.forall_mem_map]
    apply forall_congr'
    intro e
    apply forall_congr'
    intro he
    have hin : e ∈ es ++ es' := List.mem_append_right _ (mem_own.mp he).1
    have hopened := h.opened_names hp e hin
    have hacts := h.behaved e hin
    have hask : Reads clients e.req := by
      have hmem : e.answer ∈ acts tr := by
        rw [hevs, hown]
        exact List.mem_map_of_mem he
      exact hr.asks (hreads i value clients hcall hbatch) _ (mem_acts hmem) _ rfl
    have hget : ∀ db key, (e.answer : (r : Op Own) × Reply Returned r) = ⟨.get db key,.ok none⟩ → False := by
      intro db key hx
      have hreq : e.req = .get db key := congrArg Sigma.fst hx
      rw [hreq] at hask
      obtain ⟨operations,hmem,o,ho,hkind,rfl⟩ := hask
      obtain ⟨v,hput⟩ := hfirst.stored hname (hkeys operations hmem o ho hkind)
      rcases (h.on_all hp db).get hin hx with ⟨found,hfound,hshown⟩ | ⟨_,error,herror⟩
      · cases hfound
        exact found_of_put hwhole.legal hspares hput (mem_own.mp he).1 hshown rfl
      · cases herror
    have hactive : ∀ a, (e.answer : (r : Op Own) × Reply Returned r) = ⟨.active,some a⟩ → a.name = name := by
      intro a hx
      obtain ⟨hslot,_⟩ := (acts_of_answer hx hacts).slot
      exact hopened _ (List.mem_of_getElem? (h.named e hin a hslot.symm))
    generalize (e.answer : (r : Op Own) × Reply Returned r) = x at hget hactive
    obtain ⟨r,x⟩ := x
    cases r with
    | active =>
      cases x with
      | none => exact ⟨fun _ hf => hf,fun _ => trivial⟩
      | some a => exact ⟨fun _ hf => hf,fun _ => hactive a rfl⟩
    | build other =>
      cases x with
      | ok db => simp [Fine, Failed]
      | error e => simp [Fine, Failed]
    | get db key =>
      rcases x with e | _ | bytes
      · simp [Fine, Failed]
      · exact (hget db key rfl).elim
      · simp [Fine, Failed]
    | put db key value awaitDurable =>
      cases x with
      | ok _ => simp [Fine, Failed]
      | error e => simp [Fine, Failed]
    | own r => exact not_not.symm
    | _ => exact ⟨fun _ hf => hf,fun _ => trivial⟩

end Runs

end SlatedbCloudflare.Instance

namespace SlatedbCloudflare.SlateDbObject
open Programs Locks ObjectStore Utf8 Instance Histories Joins

variable {L : DoCache.LocalCacheHead}

def Served : (r : Own L) → Returned r → Prop
  | .fromStorage _, x => x = .ok ()
  | _, _ => True

theorem openDb_strict (name : String) : (openDb (L := L) name).Strict (Fine Served name) := by
  rintro (e | _)
  · exact ⟨fun h => (by cases h),fun _ => trivial⟩
  · refine ⟨fun _ => ?_,fun h => absurd rfl h⟩
    rintro (e | db)
    · exact ⟨fun h => (not_ok h).elim,fun _ => trivial⟩
    · exact ⟨fun _ => trivial,fun h => absurd ⟨db,rfl⟩ h⟩

theorem runBenchmarkOperation_strict (name : String) (db : ℕ) (value : Bytes) (o : BenchmarkOperation)
    (m : BenchmarkBatchResponse) : (runBenchmarkOperation (L := L) db value o m).Strict (Fine Served name) := by
  obtain ⟨kind,key⟩ := o
  refine .of_good (fun _ => trivial) fun started => ?_
  cases kind with
  | get =>
    rintro (e | _ | bytes)
    · refine ⟨fun h => ?_,fun _ => trivial⟩
      obtain ⟨bytes,hbytes⟩ := h
      cases hbytes
    · refine ⟨fun h => ?_,fun _ _ => trivial⟩
      obtain ⟨bytes,hbytes⟩ := h
      cases hbytes
    · exact ⟨fun _ => .of_good (fun _ => trivial) fun _ => trivial,fun h => absurd ⟨bytes,rfl⟩ h⟩
  | put =>
    rintro (e | _)
    · exact ⟨fun h => (by cases h),fun _ => trivial⟩
    · exact ⟨fun _ => .of_good (fun _ => trivial) fun _ => trivial,fun h => absurd rfl h⟩

theorem runBenchmarkOperation_reads (db : ℕ) (value : Bytes) (o : BenchmarkOperation) (m : BenchmarkBatchResponse) :
    (runBenchmarkOperation (L := L) db value o m).Asks (ReadsFor o) := by
  obtain ⟨kind,key⟩ := o
  refine ⟨trivial,fun started => ?_⟩
  cases kind with
  | get =>
    refine ⟨⟨rfl,rfl⟩,fun x => (orFail_asks slatedbError x).bind fun found => ⟨trivial,fun now => ?_⟩⟩
    cases found <;> trivial
  | put => exact ⟨trivial,fun x => (orFail_asks slatedbError x).bind fun _ => ⟨trivial,fun _ => trivial⟩⟩

end SlatedbCloudflare.SlateDbObject

namespace SlatedbCloudflare.AppState
open Programs Locks ObjectStore Utf8 Instance Histories Joins

/-- The cache directory of the database was made. -/
def Served : (r : Own) → Returned r → Prop
  | .createDirAll _, x => x = .ok ()
  | _, _ => True

theorem openDatabase_strict (name : String) : (openDatabase name).Strict (Fine Served name) := by
  rintro (e | _)
  · exact ⟨fun h => (by cases h),fun _ => trivial⟩
  · refine ⟨fun _ => ?_,fun h => absurd rfl h⟩
    rintro (e | db)
    · exact ⟨fun h => (not_ok h).elim,fun _ => trivial⟩
    · exact ⟨fun _ => trivial,fun h => absurd ⟨db,rfl⟩ h⟩

theorem runBenchmarkOperation_strict (name : String) (db : ℕ) (value : Bytes) (o : BenchmarkOperation)
    (m : BenchmarkBatchResponse) : (runBenchmarkOperation db value o m).Strict (Fine Served name) := by
  obtain ⟨kind,key⟩ := o
  refine .of_good (fun _ => trivial) fun started => ?_
  cases kind with
  | get =>
    rintro (e | _ | bytes)
    · refine ⟨fun h => ?_,fun _ => trivial⟩
      obtain ⟨bytes,hbytes⟩ := h
      cases hbytes
    · refine ⟨fun h => ?_,fun _ => trivial⟩
      obtain ⟨bytes,hbytes⟩ := h
      cases hbytes
    · exact ⟨fun _ => .of_good (fun _ => trivial) fun _ => trivial,fun h => absurd ⟨bytes,rfl⟩ h⟩
  | put =>
    rintro (e | _)
    · exact ⟨fun h => (by cases h),fun _ => trivial⟩
    · exact ⟨fun _ => .of_good (fun _ => trivial) fun _ => trivial,fun h => absurd rfl h⟩

theorem runBenchmarkOperation_reads (db : ℕ) (value : Bytes) (o : BenchmarkOperation) (m : BenchmarkBatchResponse) :
    (runBenchmarkOperation db value o m).Asks (ReadsFor o) := by
  obtain ⟨kind,key⟩ := o
  refine ⟨trivial,fun started => ?_⟩
  cases kind with
  | get =>
    refine ⟨⟨rfl,rfl⟩,fun x => (orFail_asks .internal x).bind fun found => ?_⟩
    cases found with
    | none => trivial
    | some _ => exact ⟨trivial,fun _ => trivial⟩
  | put => exact ⟨trivial,fun x => (orFail_asks .internal x).bind fun _ => ⟨trivial,fun _ => trivial⟩⟩

end SlatedbCloudflare.AppState

namespace SlatedbCloudflare
open Programs Locks ObjectStore Utf8 Instance Histories Joins

section
variable (L : DoCache.LocalCacheHead) {ι : Type} [DecidableEq ι] (texts : String → List (Write String String))
  (schedules : ι → List ℕ) (requests : ι → Request) {name : String}

variable {L texts schedules requests}

omit [DecidableEq ι] in
theorem opensBefore_left {Own : Type} {Returned : Own → Type} {es es' : Events ι Returned}
    (hopen : OpensBeforeFailures ((es ++ es').map (Event.map World.slot))) :
    OpensBeforeFailures (es.map (Event.map World.slot)) := by
  intro e he
  apply hopen e
  rw [List.map_append]
  exact List.mem_append_left _ he

theorem object_finds (hvalid : ValidDatabaseName name) (hname : ∀ i, (requests i).database = name)
    (hcalls : ∀ i call, (requests i).call = .ok call → call.Spares) {es es' : Events ι SlateDbObject.Returned} {S T}
    (h : Run Acts (objectPool L texts schedules requests) es S) (h' : Run Acts S es' T)
    (hopen : OpensBeforeFailures ((es ++ es').map (Event.map World.slot))) :
    Finds SlateDbObject.Served requests es S es' T := by
  have hvalids : ∀ i, ValidDatabaseName (requests i).database := fun i => hname i ▸ hvalid
  refine (object_sound (h.trans h') hopen).finds (object_linear h (opensBefore_left hopen))
    (object_linear (h.trans h') hopen) hname hcalls ?_ ?_ ?_
  · exact fun i => hname i ▸ (SlateDbObject.handleJoined_shape (schedules i) (requests i)).names SlateDbObject.openDb_named
  · intro i value clients hcall hbatch
    simp only [SlateDbObject.handleJoined, hcall, hvalids i, hbatch, not_true_eq_false, if_false]
    rw [hname i]
    exact batch_strict (SlateDbObject.openDb_strict name)
      (fun db => SlateDbObject.runBenchmarkOperation_strict name db (asBytes value)) (schedules i) clients
  · intro i value clients hcall hbatch
    simp only [SlateDbObject.handleJoined, hcall, hvalids i, hbatch, not_true_eq_false, if_false]
    exact batch_reads (SlateDbObject.openDb_hushed _)
      (fun db => SlateDbObject.runBenchmarkOperation_reads db (asBytes value)) (schedules i) clients

theorem process_finds (hvalid : ValidDatabaseName name) (hname : ∀ i, (requests i).database = name)
    (hcalls : ∀ i call, (requests i).call = .ok call → call.Spares) {es es' : Events ι AppState.Returned} {S T}
    (h : Run Acts (processPool texts schedules requests) es S) (h' : Run Acts S es' T)
    (hopen : OpensBeforeFailures ((es ++ es').map (Event.map World.slot))) :
    Finds AppState.Served requests es S es' T := by
  have hvalids : ∀ i, ValidDatabaseName (requests i).database := fun i => hname i ▸ hvalid
  refine (process_sound (h.trans h') hopen).finds (process_linear h (opensBefore_left hopen))
    (process_linear (h.trans h') hopen) hname hcalls ?_ ?_ ?_
  · exact fun i => hname i ▸ (AppState.handleJoined_shape (schedules i) (requests i)).names AppState.openDatabase_named
  · intro i value clients hcall hbatch
    simp only [AppState.handleJoined, hcall, hbatch, not_true_eq_false, if_false]
    rw [AppState.database_valid (hvalids i), hname i]
    exact batch_strict (AppState.openDatabase_strict name)
      (fun db => AppState.runBenchmarkOperation_strict name db (asBytes value)) (schedules i) clients
  · intro i value clients hcall hbatch
    simp only [AppState.handleJoined, hcall, hbatch, not_true_eq_false, if_false]
    rw [AppState.database_valid (hvalids i)]
    exact batch_reads (AppState.openDatabase_hushed _)
      (fun db => AppState.runBenchmarkOperation_reads db (asBytes value)) (schedules i) clients

variable (L texts schedules requests)

/-- If no request deletes or is for another database, then either service finds what it has
stored, and answers each batch that reads nothing else unless a call that it makes fails. -/
theorem stored_keys_found (hvalid : ValidDatabaseName name) (hname : ∀ i, (requests i).database = name)
    (hcalls : ∀ i call, (requests i).call = .ok call → call.Spares) :
    (∀ es S es' T, Run Acts (objectPool L texts schedules requests) es S → Run Acts S es' T →
      OpensBeforeFailures ((es ++ es').map (Event.map World.slot)) →
        Finds SlateDbObject.Served requests es S es' T) ∧
    (∀ es S es' T, Run Acts (processPool texts schedules requests) es S → Run Acts S es' T →
      OpensBeforeFailures ((es ++ es').map (Event.map World.slot)) →
        Finds AppState.Served requests es S es' T) := by
  constructor
  · exact fun _ _ _ _ h h' hopen => object_finds hvalid hname hcalls h h' hopen
  · exact fun _ _ _ _ h h' hopen => process_finds hvalid hname hcalls h h' hopen

end

/-- A key that was put is stored for the requests after the put. -/
theorem stored_keys_found_storing :
    (∃ es S es' T, Run Acts (objectPool DoCache.LocalCacheHead.plain (fun _ => []) (fun _ => []) storeAndFetch) es S ∧
      Run Acts S es' T ∧ Stored storeAndFetch S "key" ∧ Finds SlateDbObject.Served storeAndFetch es S es' T) ∧
    (∃ es S es' T, Run Acts (processPool (fun _ => []) (fun _ => []) storeAndFetch) es S ∧ Run Acts S es' T ∧
      Stored storeAndFetch S "key" ∧ Finds AppState.Served storeAndFetch es S es' T) := by
  have hvalid : ValidDatabaseName "tenant" := by decide
  have hcalls : ∀ i call, (storeAndFetch i).call = .ok call → call.Spares := by
    rintro (_ | _) call ⟨⟩ <;> trivial
  obtain ⟨hobject,hprocess⟩ := stored_keys_found DoCache.LocalCacheHead.plain (fun _ => []) (fun _ => []) storeAndFetch
    hvalid (fun _ => rfl) hcalls
  constructor
  · obtain ⟨es,S,es',T,hfirst,hrest,hopen,hdone,_⟩ := object_stored valid_tenant "key" "value"
    exact ⟨es,S,es',T,hfirst,hrest,⟨false,_,_,hdone,rfl,rfl⟩,hobject _ _ _ _ hfirst hrest hopen⟩
  · obtain ⟨es,S,es',T,hfirst,hrest,hopen,hdone,_⟩ := process_stored valid_tenant "key" "value"
    exact ⟨es,S,es',T,hfirst,hrest,⟨false,_,_,hdone,rfl,rfl⟩,hprocess _ _ _ _ hfirst hrest hopen⟩

end SlatedbCloudflare
