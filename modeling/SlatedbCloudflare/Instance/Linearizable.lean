import SlatedbCloudflare.Instance.Requests
import SlatedbCloudflare.Instance.OneName

/-! # The services as key-value stores

However the requests to an instance interleave, it behaves as one key-value store that
takes their commands one after another, as long as no database is opened after a failed
close.
-/
namespace SlatedbCloudflare.Instance
open Programs Locks ObjectStore Utf8 Histories Joins

variable {ι Own : Type} {Returned : Own → Type} {Out Adapter : Type}

/-- The request has nothing to do with what is in a database. -/
def Op.Hushed : Op Own → Prop
  | .put _ _ _ _ | .delete _ _ | .get _ _ | .scan _ | .scanPrefix _ _ | .next _ _ => False
  | _ => True

theorem Op.Hushed.silent {r : Op Own} (h : r.Hushed) : r.Silent := by
  cases r with
  | put | delete | get | scan | scanPrefix | next => exact h.elim
  | _ => trivial

/-- Keys and values are the bytes of texts. -/
def Op.Textual : Op Own → Prop
  | .put _ key value _ => (∃ k, asBytes k = key) ∧ ∃ v, asBytes v = value
  | .delete _ key => ∃ k, asBytes k = key
  | .get _ key => ∃ k, asBytes k = key
  | .scanPrefix _ start => ∃ k, asBytes k = start
  | _ => True

theorem Op.Hushed.textual {r : Op Own} (h : r.Hushed) : r.Textual := by
  cases r with
  | put | delete | get | scan | scanPrefix | next => exact h.elim
  | _ => trivial

theorem given_of_textual {e : Event ι World (Op Own) (Reply Returned)} (h : e.req.Textual)
    {c : Command String Bytes Bytes} (hc : command e = some c) : c.Given asBytes asBytes := by
  obtain ⟨caller,req,reply,before,after⟩ := e
  have hempty : asBytes "" = [] := by simp [asBytes]
  cases req with
  | put db key value awaitDurable =>
    cases reply with
    | ok _ =>
      cases hc
      exact h
    | error error =>
      rw [command, Event.answer, commandOf] at hc
      split_ifs at hc
      cases hc
      exact h
  | delete db key =>
    cases reply with
    | ok _ =>
      cases hc
      exact h
    | error error =>
      rw [command, Event.answer, commandOf] at hc
      split_ifs at hc
      cases hc
      exact h
  | get db key =>
    cases reply with
    | ok _ =>
      cases hc
      exact h
    | error error => cases hc
  | scan db =>
    cases reply with
    | ok _ =>
      cases hc
      exact ⟨"",hempty⟩
    | error error => cases hc
  | scanPrefix db start =>
    cases reply with
    | ok _ =>
      cases hc
      exact h
    | error error => cases hc
  | _ => cases hc

/-- Its success tells that what was written is safe. -/
def Call.Acknowledges : Call → Prop
  | .put _ _ | .delete _ | .flush => True
  | _ => False

/-- What a call does on its database. -/
structure Body (ι : Type) (limit : Option ℕ → ℕ) (call : Call) (f : ℕ → OpM Returned Out (Answer Adapter)) : Prop where
  textual : ∀ db, (f db).Asks Op.Textual
  own : ∀ {db os q} {evs : Events ι Returned}, Consumes (f db) (evs.map Event.answer) os q →
    OwnIterators (evs.map Event.answer)
  begun : ∀ {name db os q} {evs : Events ι Returned}, On name db evs →
    Consumes (f db) (evs.map Event.answer) os q → Begun name (.ok call) (told evs)
  answered : ∀ {name db os a held} {evs : Events ι Returned}, On name db evs →
    evs.IsChain (fun e e' => Aside held e.after e'.before) →
    (∀ e ∈ evs, ∀ iterator, Creates iterator e.answer → held iterator) →
    Returns (f db) (evs.map Event.answer) os (.ok a) → Answered limit name call (told evs) a
  secured : ∀ {db os a} {evs : Events ι Returned}, call.Acknowledges →
    Returns (f db) (evs.map Event.answer) os (.ok a) → ∃ evs' e, evs = evs' ++ [e] ∧ Secures db e.answer

theorem told_hushed {p q : OpM Returned Out (Answer Adapter)} {evs : Events ι Returned} {os : List Out}
    (hp : p.Asks Op.Hushed) (h : Consumes p (evs.map Event.answer) os q) : told evs = [] := by
  apply told_silent
  intro e he
  have hhushed := h.asks hp _ (List.mem_map_of_mem he)
  exact hhushed.silent

section Bodies
variable (ι) (message : String → AppError) (limit : Option ℕ → ℕ) (key value : String)

/-- The request is not one to pull from an iterator. -/
def Op.Pulls : Op Own → Prop
  | .next _ _ => True
  | _ => False

theorem ownIterators_of_asks {p q : OpM Returned Out (Answer Adapter)} {tr : List ((r : Op Own) × Reply Returned r)}
    {os : List Out} (hp : p.Asks fun r => ¬ r.Pulls) (h : Consumes p tr os q) : OwnIterators tr := by
  intro x hx db iterator hreq
  have hpulls := h.asks hp x hx
  rw [hreq] at hpulls
  exact absurd trivial hpulls

theorem asks_reported {α β : Type} {P : Op Own → Prop} (f : α → β) (x : Except String α) :
    (orFail message x >>= fun a => (pure (f a) : OpM Returned Out β)).Asks P :=
  (orFail_asks message x).bind fun _ => trivial

theorem put_body : Body ι limit (.put key value)
    fun db => (putValue message db key value : OpM Returned Out (Answer Adapter)) where
  textual _ := ⟨⟨⟨key,rfl⟩,value,rfl⟩,asks_reported message _⟩
  own hc := ownIterators_of_asks (p := putValue message _ key value) ⟨not_false,asks_reported message _⟩ hc
  begun := putValue_begun
  answered h _ _ hr := putValue_answered h hr
  secured := by
    intro db os a evs _ hr
    obtain ⟨e,x,rfl,hx,hrest⟩ := returns_one (r := .put db _ _ _) (reported_silent message fun _ => Answer.done) hr
    obtain ⟨_,rfl,_⟩ := returns_reported hrest
    exact ⟨[],e,rfl,hx ▸ ⟨rfl,rfl⟩⟩

theorem delete_body : Body ι limit (.delete key)
    fun db => (deleteKey message db key : OpM Returned Out (Answer Adapter)) where
  textual _ := ⟨⟨key,rfl⟩,asks_reported message _⟩
  own hc := ownIterators_of_asks (p := deleteKey message _ key) ⟨not_false,asks_reported message _⟩ hc
  begun := deleteKey_begun
  answered h _ _ hr := deleteKey_answered h hr
  secured := by
    intro db os a evs _ hr
    obtain ⟨e,x,rfl,hx,hrest⟩ := returns_one (r := .delete db _) (reported_silent message fun _ => Answer.done) hr
    obtain ⟨_,rfl,_⟩ := returns_reported hrest
    exact ⟨[],e,rfl,hx ▸ rfl⟩

theorem get_body : Body ι limit (.get key)
    fun db => (getValue message db key : OpM Returned Out (Answer Adapter)) where
  textual _ := ⟨⟨key,rfl⟩,asks_reported message _⟩
  own hc := ownIterators_of_asks (p := getValue message _ key) ⟨not_false,asks_reported message _⟩ hc
  begun := getValue_begun
  answered h _ _ hr := getValue_answered h hr
  secured h _ := h.elim

theorem flush_body : Body ι limit .flush
    fun db => (flushMemTable message db : OpM Returned Out (Answer Adapter)) where
  textual _ := ⟨trivial,asks_reported message _⟩
  own hc := ownIterators_of_asks (p := flushMemTable message _) ⟨not_false,asks_reported message _⟩ hc
  begun _ hc := .inl (told_hushed (p := flushMemTable message _) ⟨trivial,asks_reported message _⟩ hc)
  answered := by
    intro name db os a held evs h hchain hheld hr
    have htold := told_hushed (p := flushMemTable message db) ⟨trivial,asks_reported message _⟩ hr
    obtain ⟨x,tr,_,hrest⟩ := hr.of_call
    obtain ⟨_,_,hend⟩ := returns_orFail hrest
    obtain ⟨_,_,ha⟩ := hend.of_ok
    cases ha
    exact htold
  secured := by
    intro db os a evs _ hr
    obtain ⟨e,x,rfl,hx,hrest⟩ := returns_one (r := .flush db) (reported_silent message fun _ => Answer.done) hr
    obtain ⟨_,rfl,_⟩ := returns_reported hrest
    exact ⟨[],e,rfl,hx ▸ rfl⟩

theorem scan_body (start : Option String) (count : Option ℕ) :
    Body ι limit (.scan start count)
      fun db => (scanItems message db (start.getD "") (limit count) : OpM Returned Out (Answer Adapter)) where
  textual db := by
    have hrest : ∀ x : Except String ℕ,
        (scanWith message db (limit count) x : OpM Returned Out (Answer Adapter)).Asks Op.Textual := by
      intro x
      apply (scanWith_asks message db (limit count) x).imp
      rintro r ⟨iterator,_,rfl⟩
      exact trivial
    by_cases hstart : start.getD "" = ""
    · rw [scanItems, if_pos hstart]
      exact ⟨trivial,hrest⟩
    · rw [scanItems, if_neg hstart]
      exact ⟨⟨_,rfl⟩,hrest⟩
  own hc := scanItems_own hc
  begun := scanItems_begun
  answered h hchain hheld hr := scanItems_answered h hchain hheld hr
  secured h _ := h.elim

theorem batch_body {run : ℕ → BenchmarkOperation → BenchmarkBatchResponse → OpM Returned Out BenchmarkBatchResponse}
    (hrun : ∀ db, Operates ι db value (run db)) (hasks : ∀ db o m, (run db o m).Asks fun r => r.Textual ∧ ¬ r.Pulls)
    (schedule : List ℕ) (clients : List (List BenchmarkOperation)) :
    Body ι limit (.benchmarkBatch value clients) (fun db => do
      let measurements ← joinClients schedule (fun operations => runOperations (run db) operations .empty) clients
      pure (.batch measurements : Answer Adapter)) := by
  have hall : ∀ db, (do
      let measurements ← joinClients schedule (fun operations => runOperations (run db) operations .empty) clients
      pure (.batch measurements) : OpM Returned Out (Answer Adapter)).Asks fun r => r.Textual ∧ ¬ r.Pulls := by
    intro db
    have hclients := joinClients_asks schedule (fun operations => runOperations_asks (hasks db) operations .empty) clients
    exact hclients.bind fun _ => trivial
  constructor
  · intro db
    exact (hall db).imp fun _ h => h.1
  · intro db os q evs hc
    exact ownIterators_of_asks ((hall db).imp fun _ h => h.2) hc
  · intro name db os q evs h hc
    have hjoin : ∃ os q', Consumes (joinClients schedule (fun operations => runOperations (run db) operations .empty)
        clients) (evs.map Event.answer) os q' := by
      rcases Returns.consumes_bind hc with ⟨q',hq,_⟩ | ⟨ms,tr₁,tr₂,os₁,os₂,htr,_,hq,hend⟩
      · exact ⟨_,q',hq⟩
      · cases hend
        rw [htr, List.append_nil]
        exact ⟨_,_,hq⟩
    obtain ⟨_,_,hq⟩ := hjoin
    exact joinClients_begun h (fun operations _ _ _ hon hc => runOperations_begun (hrun db) hon hc) hq
  · intro name db os a held evs h hchain hheld hr
    obtain ⟨m,tr₁,tr₂,os₁,os₂,htr,_,hjoin,hend⟩ := Returns.of_bind_ok hr
    obtain ⟨rfl,_,ha⟩ := hend.of_ok
    cases ha
    rw [List.append_nil] at htr
    subst htr
    exact joinClients_done h (fun operations _ _ _ hon hr => runOperations_done (hrun db) hon hr) hjoin
  · exact fun h _ => h.elim

end Bodies

def LockedHushed : Locked (Op Own) → Prop
  | .lock | .unlock => True
  | .act r => r.Hushed

def AnsweredPlainly : Call → Answer Adapter → Prop
  | .reopen, .done | .clearCache, .done | .stats, .status _ => True
  | _, _ => False

/-- How a service handles a request: on its database, or with nothing to do with one. -/
inductive Form (ι : Type) (limit : Option ℕ → ℕ) (req : Request) : HandlerM Returned Out (Answer Adapter) → Prop
  | onDatabase {mixed : AppError} {openDb : String → OpM Returned Out ActiveDb} {call : Call}
      {f : ℕ → OpM Returned Out (Answer Adapter)} (hcall : req.call = .ok call)
      (hhushed : (openDb req.database).Asks Op.Hushed)
      (hbuilt : ∀ tr os a, Returns (openDb req.database) tr os (.ok a) →
        (⟨.build req.database,.ok a.db⟩ : (r : Op Own) × Reply Returned r) ∈ tr)
      (hbody : Body ι limit call f) :
      Form ι limit req (do let db ← withLock (currentOr mixed openDb req.database); free (f db))
  | plain {q : HandlerM Returned Out (Answer Adapter)} (hq : q.Asks LockedHushed)
      (ha : ∀ tr os a, Returns q tr os (.ok a) → ∃ call, req.call = .ok call ∧ AnsweredPlainly call a) :
      Form ι limit req q

section Threads
variable {req : Request} {p q : HandlerM Returned Out (Answer Adapter)} {limit : Option ℕ → ℕ}
  {tr : List ((r : Locked (Op Own)) × Locked.Reply (Reply Returned) r)} {os : List Out} {evs : Events ι Returned}

theorem begun_nil (database : String) (call : Except AppError Call) : Begun database call [] := by
  rcases call with rejection | call
  · rfl
  cases call with
  | benchmarkBatch value clients =>
    refine ⟨fun _ => 0,_,.nil,fun i => ?_⟩
    change List.Forall₂ _ ((clients.getD i []).take 0) []
    rw [List.take_zero]
    exact .nil
  | _ => exact .inl rfl

theorem currentOr_hushed {mixed : AppError} {openDb : String → OpM Returned Out ActiveDb} {name : String}
    (h : (openDb name).Asks Op.Hushed) : (currentOr mixed openDb name).Asks Op.Hushed := by
  refine ⟨trivial,fun active => ?_⟩
  cases active with
  | none =>
    have hinstall : (install openDb name).Asks Op.Hushed := h.bind fun _ => ⟨trivial,fun _ => trivial⟩
    exact hinstall.bind fun _ => trivial
  | some current =>
    change Prog.Asks _ (if current.name ≠ name then .err mixed else pure current.db)
    split_ifs <;> trivial

theorem hushed_of_plain (hq : p.Asks LockedHushed) (hc : Consumes p tr os q) (hevs : acts tr = evs.map Event.answer) :
    ∀ e ∈ evs, e.req.Hushed := by
  intro e he
  have hmem : e.answer ∈ acts tr := hevs ▸ List.mem_map_of_mem he
  exact hc.asks hq _ (mem_acts hmem)

theorem replace_hushed {message : String → AppError} {between : OpM Returned Out Unit}
    {openDb : String → OpM Returned Out ActiveDb} {name : String} (hb : between.Asks Op.Hushed)
    (h : (openDb name).Asks Op.Hushed) : (withLock (replace message between openDb name)).Asks LockedHushed := by
  have hclose : ∀ active : Option ActiveDb, (closeTaken message active : OpM Returned Out Unit).Asks Op.Hushed := by
    intro active
    cases active with
    | none => trivial
    | some current => exact ⟨trivial,fun x => orFail_asks message x⟩
  have hinstall : (install openDb name).Asks Op.Hushed := h.bind fun _ => ⟨trivial,fun _ => trivial⟩
  apply asks_of_withLock trivial trivial
  exact ⟨trivial,fun active => (hclose active).bind fun _ => hb.bind fun _ => hinstall.bind fun _ => trivial⟩

/-- Where a request has come: it has not got a database yet, or it works on one. -/
theorem onDatabase_consumes {mixed : AppError} {openDb : String → OpM Returned Out ActiveDb} {name : String}
    {f : ℕ → OpM Returned Out (Answer Adapter)} (hhushed : (openDb name).Asks Op.Hushed)
    (hc : Consumes (withLock (currentOr mixed openDb name) >>= fun db => free (f db)) tr os q)
    (hevs : acts tr = evs.map Event.answer) :
    (∀ e ∈ evs, e.req.Hushed) ∨ ∃ db evs₁ evs₂ os₁ os₂ q', evs = evs₁ ++ evs₂ ∧ (∀ e ∈ evs₁, e.req.Hushed) ∧
      Returns (currentOr mixed openDb name) (evs₁.map Event.answer) os₁ (.ok db) ∧
      Consumes (f db) (evs₂.map Event.answer) os₂ q' := by
  rcases consumes_section hc with ⟨q',os',hq⟩ | ⟨db,tr₁,tr₂,os₁,os₂,q',htr,hcurrent,hf⟩
  · rw [hevs] at hq
    exact .inl fun e he => hq.asks (currentOr_hushed hhushed) _ (List.mem_map_of_mem he)
  · rw [hevs] at htr
    obtain ⟨evs₁,evs₂,rfl,rfl,rfl⟩ := List.map_eq_append_iff.mp htr
    refine .inr ⟨db,evs₁,evs₂,os₁,os₂,q',rfl,fun e he => ?_,hcurrent,hf⟩
    exact Consumes.asks hcurrent (currentOr_hushed hhushed) _ (List.mem_map_of_mem he)

theorem Form.textual (h : Form ι limit req p) (hc : Consumes p tr os q) (hevs : acts tr = evs.map Event.answer) :
    ∀ e ∈ evs, e.req.Textual := by
  cases h with
  | onDatabase hcall hhushed hbuilt hbody =>
    rcases onDatabase_consumes hhushed hc hevs with hall | ⟨db,evs₁,evs₂,_,_,_,rfl,hfirst,_,hf⟩
    · exact fun e he => (hall e he).textual
    · intro e he
      rcases List.mem_append.mp he with he | he
      · exact (hfirst e he).textual
      · exact hf.asks (hbody.textual db) _ (List.mem_map_of_mem he)
  | plain hq ha => exact fun e he => (hushed_of_plain hq hc hevs e he).textual

theorem Form.own (h : Form ι limit req p) (hc : Consumes p tr os q) (hevs : acts tr = evs.map Event.answer) :
    OwnIterators (evs.map Event.answer) := by
  have hnone : ∀ evs' : Events ι Returned, (∀ e ∈ evs', e.req.Hushed) → ∀ x ∈ evs'.map Event.answer,
      ∀ db iterator, x.1 ≠ .next db iterator := by
    intro evs' hall x hx db iterator hreq
    obtain ⟨e,he,rfl⟩ := List.mem_map.mp hx
    have hhushed := hall e he
    change e.req = _ at hreq
    rw [hreq] at hhushed
    exact hhushed
  cases h with
  | onDatabase hcall hhushed hbuilt hbody =>
    rcases onDatabase_consumes hhushed hc hevs with hall | ⟨db,evs₁,evs₂,_,_,_,rfl,hfirst,_,hf⟩
    · exact fun x hx db iterator hreq => absurd hreq (hnone evs hall x hx db iterator)
    · intro x hx db' iterator hreq
      rw [List.map_append] at hx
      rcases List.mem_append.mp hx with hx | hx
      · exact absurd hreq (hnone evs₁ hfirst x hx db' iterator)
      · obtain ⟨y,hy,hcreates⟩ := hbody.own hf x hx db' iterator hreq
        refine ⟨y,?_,hcreates⟩
        rw [List.map_append]
        exact List.mem_append_right _ hy
  | plain hq ha =>
    have hall := hushed_of_plain hq hc hevs
    exact fun x hx db iterator hreq => absurd hreq (hnone evs hall x hx db iterator)

end Threads

section Runs

def textWrite (w : Write String String) : Write Bytes Bytes := (asBytes w.1,w.2.map asBytes)

def World.start (texts : String → List (Write String String)) : World :=
  ⟨State.empty,.opening fun name => (texts name).map textWrite⟩

theorem shows_start (texts : String → List (Write String String)) :
    Shows asBytes asBytes (stored (World.start texts).data.logs) (stored texts) := by
  intro name
  change KeyedStore.Represents asBytes (fun _ => asBytes) (replay ((texts name).map textWrite)) (replay (texts name))
  generalize texts name = log
  induction log using List.reverseRecOn with
  | nil => exact KeyedStore.represents_empty asBytes fun _ => asBytes
  | append_singleton log w ih =>
    rw [List.map_append, List.map_singleton, replay_snoc, replay_snoc]
    exact ih.set embeds_text.key_inverse.injective w.1 w.2

theorem kept_start (texts : String → List (Write String String)) : (World.start texts).data.Kept := fun _ => le_rfl

variable {es : Events ι Returned} {w t : World}

theorem Path.advances (h : Path w es t) (hes : ∀ e ∈ es, Advances e.before e.after (command e)) :
    Legal byteKeys (stored w.data.logs) (es.filterMap command) ∧
      ∀ name, t.data.logs name = w.data.logs name ++ writes name (es.filterMap command) := by
  induction es generalizing w with
  | nil =>
    cases h
    exact ⟨trivial,fun name => by simp [writes]⟩
  | cons e es ih =>
    obtain ⟨rfl,h⟩ := h
    obtain ⟨hfirst,hrest⟩ := List.forall_mem_cons.mp hes
    obtain ⟨hlegal,hlogs⟩ := ih h hrest
    have hfilter : (e :: es).filterMap command = (command e).toList ++ es.filterMap command := by
      cases hc : command e with
      | none => rw [List.filterMap_cons_none hc]; rfl
      | some c => rw [List.filterMap_cons_some hc]; rfl
    have hstored : stored e.after.data.logs = outcome (stored e.before.data.logs) (command e).toList := by
      rw [← stored_writes]
      exact congrArg stored (funext hfirst.logs)
    constructor
    · rw [hfilter, legal_append, ← hstored]
      refine ⟨?_,hlegal⟩
      cases hc : command e with
      | none => exact trivial
      | some c => exact ⟨hfirst.sees c hc,trivial⟩
    · intro name
      rw [hlogs name, hfirst.logs name, hfilter, writes_append, List.append_assoc]

/-- The commands of the events, in their order, are a history of a key-value store; those
of each request are what it asked for and what it answers with. -/
structure Linear [DecidableEq ι] (limit : Option ℕ → ℕ) (requests : ι → Request) (m : Store String String String)
    (es : Events ι Returned) (T : Pool ι World (Op Own) (Reply Returned) Out AppError (Answer Adapter)) : Prop where
  legal : Legal textKeys m (told es)
  final : Shows asBytes asBytes (stored T.state.data.logs) (outcome m (told es))
  begun : ∀ i, Begun (requests i).database (requests i).call (told (own i es))
  answered : ∀ i a, T.thread i = .ok a → ∃ call, (requests i).call = .ok call ∧
    Answered limit (requests i).database call (told (own i es)) a

variable [DecidableEq ι] {limit : Option ℕ → ℕ} {requests : ι → Request} {p : ι → HandlerM Returned Out (Answer Adapter)}
  {texts : String → List (Write String String)}
  {T : Pool ι World (Op Own) (Reply Returned) Out AppError (Answer Adapter)}

/-- What is known of a cautious run of an instance. -/
structure Sound (p : ι → HandlerM Returned Out (Answer Adapter)) (w : World) (es : Events ι Returned)
    (T : Pool ι World (Op Own) (Reply Returned) Out AppError (Answer Adapter)) : Prop where
  path : Path w es T.state
  behaved : Behaved es
  cautious : Cautious es
  named : ∀ e ∈ es, Named e.before.slot
  threads : ∀ i, ∃ tr os, Consumes (p i) tr os (T.thread i) ∧ acts tr = (own i es).map Event.answer
  advances : ∀ e ∈ es, Advances e.before e.after (command e)

theorem sound_of_run (hkeeps : ∀ i, Keeps (p i))
    (hnamed : ∀ i, Disciplined (@Serve Own Returned False) Named Named (p i) none)
    (h : Run Acts (start (World.start texts) p) es T)
    (hopen : OpensBeforeFailures (es.map (Event.map World.slot))) : Sound p (World.start texts) es T := by
  have hacts : Behaved es := h.serves
  have hslot : Run Does (start State.empty p) (es.map (Event.map World.slot)) (T.map World.slot) :=
    h.map fun _ _ _ _ hs => hs.slot
  have hcautious : Cautious es := by
    intro e he
    exact passing_of_run hkeeps hslot True (fun e he _ => hopen e he) _ (List.mem_map_of_mem he)
  have hnames : ∀ e ∈ es, Named e.before.slot := by
    have hempty : Named State.empty := named_take State.empty
    have hstart : Kept (@Serve Own Returned False) Named Named (start State.empty p) := .start hempty hempty hnamed
    rw [← serve_false] at hslot
    intro e he
    exact ((hslot.kept hstart).2 _ (List.mem_map_of_mem he)).1
  have hkept := h.path.invariant (I := fun w => w.data.Kept) (kept_start texts) fun e he hk =>
    ((hacts e he).advances hk (hcautious e he).1 (hcautious e he).2).kept
  have hadvances : ∀ e ∈ es, Advances e.before e.after (command e) := fun e he =>
    (hacts e he).advances (hkept.2 e he).1 (hcautious e he).1 (hcautious e he).2
  exact ⟨h.path,hacts,hcautious,hnames,h.consumes,hadvances⟩

theorem Sound.on {mixed : AppError} {openDb : String → OpM Returned Out ActiveDb} {name : String} {db : ℕ}
    {evs₁ evs₂ : Events ι Returned} {os : List Out} (h : Sound p w es T) (hsub : ∀ e ∈ evs₁ ++ evs₂, e ∈ es)
    (hbuilt : ∀ tr os a, Returns (openDb name) tr os (.ok a) →
      (⟨.build name,.ok a.db⟩ : (r : Op Own) × Reply Returned r) ∈ tr)
    (hr : Returns (currentOr mixed openDb name) (evs₁.map Event.answer) os (.ok db)) : On name db evs₂ := by
  have hin : ∀ e ∈ evs₂, e ∈ es := fun e he => hsub e (List.mem_append_right _ he)
  have hopened := name_of_holds h.path h.behaved h.named (fun e he => hsub e (List.mem_append_left _ he))
    (currentOr_holds hbuilt hr)
  refine ⟨fun e he => h.behaved e (hin e he),fun e he => h.cautious e (hin e he),fun e he hlive => ?_⟩
  exact name_of_opened hlive (opened_of_path h.path h.behaved e (hin e he)).1 hopened

omit [DecidableEq ι] in
theorem told_of_hushed {evs : Events ι Returned} (h : ∀ e ∈ evs, e.req.Hushed) : told evs = [] :=
  told_silent fun e he => (h e he).silent

theorem Sound.begun (h : Sound p w es T) {i : ι} {req : Request} (hform : Form ι limit req (p i)) :
    Begun req.database req.call (told (own i es)) := by
  obtain ⟨tr,os,hc,hevs⟩ := h.threads i
  generalize p i = q at hform hc
  cases hform with
  | onDatabase hcall hhushed hbuilt hbody =>
    rcases onDatabase_consumes hhushed hc hevs with hall | ⟨db,evs₁,evs₂,_,_,_,hown,hfirst,hcurrent,hf⟩
    · rw [told_of_hushed hall]
      exact begun_nil _ _
    · have hon : On _ db evs₂ := h.on (fun e he => (mem_own.mp (hown ▸ he)).1) hbuilt hcurrent
      rw [hown, told_append, told_of_hushed hfirst, List.nil_append, hcall]
      exact hbody.begun hon hf
  | plain hq ha =>
    rw [told_of_hushed (hushed_of_plain hq hc hevs)]
    exact begun_nil _ _

theorem Sound.answered (h : Sound p w es T) (hforms : ∀ i, Form ι limit (requests i) (p i)) {i : ι} {a : Answer Adapter}
    (hi : T.thread i = .ok a) : ∃ call, (requests i).call = .ok call ∧
      Answered limit (requests i).database call (told (own i es)) a := by
  have hiterators : ∀ j, OwnIterators ((own j es).map Event.answer) := by
    intro j
    obtain ⟨tr,os,hc,hevs⟩ := h.threads j
    exact (hforms j).own hc hevs
  have hchain := aside_own h.path h.behaved h.cautious hiterators i
  obtain ⟨tr,os,hc,hevs⟩ := h.threads i
  rw [hi] at hc
  have hr : Returns (p i) tr os (.ok a) := hc
  have hform := hforms i
  generalize p i = q at hform hr
  cases hform with
  | onDatabase hcall hhushed hbuilt hbody =>
    obtain ⟨db,tr₁,tr₂,os₁,os₂,htr,hcurrent,hf⟩ := returns_section hr
    rw [hevs] at htr
    obtain ⟨evs₁,evs₂,hown,rfl,rfl⟩ := List.map_eq_append_iff.mp htr
    have hfirst : ∀ e ∈ evs₁, e.req.Hushed := fun e he =>
      Consumes.asks hcurrent (currentOr_hushed hhushed) _ (List.mem_map_of_mem he)
    have hon : On _ db evs₂ := h.on (fun e he => (mem_own.mp (hown ▸ he)).1) hbuilt hcurrent
    refine ⟨_,hcall,?_⟩
    rw [hown] at hchain
    rw [hown, told_append, told_of_hushed hfirst, List.nil_append]
    refine hbody.answered hon hchain.right_of_append ?_ hf
    exact fun e he iterator hx => ⟨e,hown ▸ List.mem_append_right _ he,hx⟩
  | plain hq ha =>
    obtain ⟨call,hcall,hplain⟩ := ha tr os a hr
    refine ⟨call,hcall,?_⟩
    rw [told_of_hushed (hushed_of_plain hq hr hevs)]
    cases call with
    | reopen | clearCache | stats =>
      cases a with
      | done | status => first | exact rfl | exact hplain.elim
      | _ => exact hplain.elim
    | _ => exact hplain.elim

theorem Sound.given (h : Sound p w es T) (hforms : ∀ i, Form ι limit (requests i) (p i)) :
    ∀ c ∈ es.filterMap command, c.Given asBytes asBytes := by
  intro c hc
  obtain ⟨e,he,hce⟩ := List.mem_filterMap.mp hc
  obtain ⟨tr,os,hcons,hevs⟩ := h.threads e.caller
  have htextual := (hforms e.caller).textual hcons hevs e (mem_own.mpr ⟨he,rfl⟩)
  exact given_of_textual htextual hce

omit [DecidableEq ι] in
/-- Events on text that follow one another are a history of a key-value store. -/
theorem Path.legal {t : World} (h : Path (World.start texts) es t)
    (hes : ∀ e ∈ es, Advances e.before e.after (command e)) (hgiven : ∀ c ∈ es.filterMap command, c.Given asBytes asBytes) :
    Legal textKeys (stored texts) (told es) ∧ Shows asBytes asBytes (stored t.data.logs) (outcome (stored texts) (told es)) := by
  obtain ⟨hlegal,hlogs⟩ := Path.advances h hes
  obtain ⟨htext,hshows⟩ := (shows_start texts).legal embeds_text hgiven hlegal
  have htold : (es.filterMap command).map (Command.map fromUtf8Lossy fromUtf8Lossy) = told es :=
    List.map_filterMap
  have hfinal : stored t.data.logs = outcome (stored (World.start texts).data.logs) (es.filterMap command) := by
    rw [← stored_writes]
    exact congrArg stored (funext hlogs)
  rw [htold] at htext hshows
  rw [← hfinal] at hshows
  exact ⟨htext,hshows⟩

/-- A cautious run is one of a key-value store. -/
theorem Sound.linear (h : Sound p (World.start texts) es T) (hforms : ∀ i, Form ι limit (requests i) (p i)) :
    Linear limit requests (stored texts) es T := by
  obtain ⟨htext,hshows⟩ := Path.legal h.path h.advances (h.given hforms)
  exact ⟨htext,hshows,fun i => h.begun (hforms i),fun i a => h.answered hforms⟩

end Runs

end SlatedbCloudflare.Instance
