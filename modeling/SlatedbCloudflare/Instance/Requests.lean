import SlatedbCloudflare.Instance.Batches
import SlatedbCloudflare.Instance.Joined
import SlatedbCloudflare.Instance.Ownership
import SlatedbCloudflare.Scans.Pages

/-! # The commands of a request

What a request does to its database, as far as its answer tells: a request that succeeded
made just the commands that it stands for and answers with what they saw, and one that
failed or is under way made some of them.
-/
namespace SlatedbCloudflare.Instance
open Programs Locks ObjectStore Utf8 Histories Joins

theorem fromUtf8Lossy_nil : fromUtf8Lossy [] = "" := rfl

abbrev TextCommand := Command String String String

/-- Keys in the order of their bytes; a prefix is one of characters. -/
def textKeys : Keys String := ⟨fun a b => asBytes a < asBytes b,fun start key => start.toList <+: key.toList⟩

theorem embeds_text : Embeds asBytes asBytes fromUtf8Lossy fromUtf8Lossy textKeys byteKeys where
  key_inverse := fromUtf8Lossy_asBytes
  value_inverse := fromUtf8Lossy_asBytes
  before _ _ := Iff.rfl
  begins _ _ := asBytes_prefix

/-- The command performs this operation of a batch. -/
def Performs (database value : String) (operation : BenchmarkOperation) (c : TextCommand) : Prop :=
  match operation.operation with
  | .get => ∃ found, c = .get database operation.key found
  | .put => c = .put database operation.key value

/-- The commands perform the operations of the clients, those of each client in order. -/
def Runs (database value : String) (operations : ℕ → List BenchmarkOperation) (cs : List TextCommand) : Prop :=
  ∃ each : ℕ → List TextCommand, Interleaves each cs ∧
    ∀ i, List.Forall₂ (Performs database value) (operations i) (each i)

/-- The commands of a call. -/
def Made (database : String) : Call → List TextCommand → Prop
  | .put key value, cs => cs = [.put database key value]
  | .delete key, cs => cs = [.delete database key]
  | .get key, cs => ∃ found, cs = [.get database key found]
  | .scan start _, cs => ∃ entries, cs = [.scan database (start.getD "") entries]
  | .benchmarkBatch value clients, cs => Runs database value (fun i => clients.getD i []) cs
  | .reopen, cs | .flush, cs | .clearCache, cs | .stats, cs => cs = []

/-- The commands of a call that has not succeeded. -/
def Begun (database : String) : Except AppError Call → List TextCommand → Prop
  | .error _, cs => cs = []
  | .ok (.benchmarkBatch value clients), cs =>
    ∃ n : ℕ → ℕ, Runs database value (fun i => (clients.getD i []).take (n i)) cs
  | .ok call, cs => cs = [] ∨ Made database call cs

def Found : TextCommand → Prop
  | .get _ _ found => found ≠ none
  | _ => True

/-- The answer tells what the commands of the call saw; a scan returns up to `limit` entries. -/
def Answered {Adapter : Type} (limit : Option ℕ → ℕ) (database : String) :
    Call → List TextCommand → Answer Adapter → Prop
  | .put key value, cs, .done => cs = [.put database key value]
  | .delete key, cs, .done => cs = [.delete database key]
  | .get key, cs, .value answered found => answered = key ∧ cs = [.get database key found]
  | .scan start n, cs, .scan items truncated => ∃ entries, cs = [.scan database (start.getD "") entries] ∧
      items = entries.take (limit n) ∧ truncated = decide (limit n < entries.length)
  | .benchmarkBatch value clients, cs, .batch _ =>
    Runs database value (fun i => clients.getD i []) cs ∧ ∀ c ∈ cs, Found c
  | .reopen, cs, .done | .flush, cs, .done | .clearCache, cs, .done => cs = []
  | .stats, cs, .status _ => cs = []
  | _, _, _ => False

section Events
variable {ι Own : Type} {Returned : Own → Type}

def shown (e : Event ι World (Op Own) (Reply Returned)) : Option TextCommand :=
  (command e).map (Command.map fromUtf8Lossy fromUtf8Lossy)

def Iterates (db : ℕ) (start : String) (x : Except String ℕ) (e : Event ι World (Op Own) (Reply Returned)) : Prop :=
  start = "" ∧ e.answer = ⟨.scan db,x⟩ ∨ e.answer = ⟨.scanPrefix db (asBytes start),x⟩

/-- The reply tells that what was written to the database is safe. -/
def Secures (db : ℕ) : (r : Op Own) × Reply Returned r → Prop
  | ⟨.put d _ _ awaitDurable,.ok _⟩ => d = db ∧ awaitDurable = true
  | ⟨.delete d _,.ok _⟩ => d = db
  | ⟨.flush d,.ok _⟩ => d = db
  | _ => False

/-- After the event everything written to the database is safe. -/
def Secure (name : String) (e : Event ι World (Op Own) (Reply Returned)) : Prop :=
  e.after.data.durable name = (e.after.data.logs name).length

/-- Events of one live database, under this name. -/
structure On (name : String) (db : ℕ) (evs : Events ι Returned) : Prop where
  acts : Behaved evs
  cautious : Cautious evs
  named : ∀ e ∈ evs, e.before.slot.Live db → e.before.name db = name

variable {name : String} {db : ℕ} {evs : Events ι Returned}
  {e : Event ι World (Op Own) (Reply Returned)} {key value : String} {awaitDurable : Bool}

theorem On.sub {evs' : Events ι Returned} (h : On name db evs) (hsub : ∀ e ∈ evs', e ∈ evs) :
    On name db evs' :=
  ⟨fun e he => h.acts e (hsub e he),fun e he => h.cautious e (hsub e he),fun e he => h.named e (hsub e he)⟩

theorem shown_of_answer {x : (r : Op Own) × Reply Returned r} (h : e.answer = x) :
    shown e = (commandOf e.before e.after x).map (Command.map fromUtf8Lossy fromUtf8Lossy) := by
  rw [shown, command, h]

theorem secure_of_sync {d : Data} (h : e.after.data = d.sync name) : Secure name e := by
  rw [Secure, h, sync_durable_self, sync_logs]

theorem acts_of_answer {r : Op Own} {x : Reply Returned r} (h : e.answer = ⟨r,x⟩)
    (ha : Acts e.before e.req e.reply e.after) : Acts e.before r x e.after := by
  obtain ⟨caller,req,reply,before,after⟩ := e
  cases h
  exact ha

theorem shown_silent (h : e.req.Silent) : shown e = none := by
  rw [shown, command, Event.answer, commandOf_silent h]
  rfl

theorem told_silent (h : ∀ e ∈ evs, e.req.Silent) : evs.filterMap shown = [] :=
  List.filterMap_eq_nil_iff.mpr fun e he => shown_silent (h e he)

variable (h : On name db evs) (he : e ∈ evs)
include h he

/-- What was not live was not written to. -/
theorem On.grew {bytes : Bytes} {v : Option Bytes} (hdata : Attempted e.before db bytes v e.after)
    (hg : Grew e.before e.after (e.before.name db)) : e.before.name db = name := by
  apply h.named e he
  by_contra hlive
  exact hg (by rw [hdata.1 hlive])

theorem On.put {x : Except String Unit} (hx : e.answer = ⟨.put db (asBytes key) (asBytes value) awaitDurable,x⟩) :
    shown e = some (.put name key value) ∨ shown e = none ∧ ∃ error, x = .error error := by
  have hdata := (acts_of_answer hx (h.acts e he)).data
  cases x with
  | ok _ =>
    have hname := h.named e he hdata.1
    exact .inl (by simp [shown_of_answer hx, commandOf, hname, Command.map, fromUtf8Lossy_asBytes])
  | error error =>
    by_cases hg : Grew e.before e.after (e.before.name db)
    · have hname := h.grew he hdata hg
      rw [hname] at hg
      exact .inl (by simp [shown_of_answer hx, commandOf, hname, hg, Command.map, fromUtf8Lossy_asBytes])
    · exact .inr ⟨by simp [shown_of_answer hx, commandOf, hg],error,rfl⟩

theorem On.delete {x : Except String Unit} (hx : e.answer = ⟨.delete db (asBytes key),x⟩) :
    shown e = some (.delete name key) ∨ shown e = none ∧ ∃ error, x = .error error := by
  have hdata := (acts_of_answer hx (h.acts e he)).data
  cases x with
  | ok _ =>
    have hname := h.named e he hdata.1
    exact .inl (by simp [shown_of_answer hx, commandOf, hname, Command.map, fromUtf8Lossy_asBytes])
  | error error =>
    by_cases hg : Grew e.before e.after (e.before.name db)
    · have hname := h.grew he hdata hg
      rw [hname] at hg
      exact .inl (by simp [shown_of_answer hx, commandOf, hname, hg, Command.map, fromUtf8Lossy_asBytes])
    · exact .inr ⟨by simp [shown_of_answer hx, commandOf, hg],error,rfl⟩

theorem On.get {x : Except String (Option Bytes)} (hx : e.answer = ⟨.get db (asBytes key),x⟩) :
    (∃ found, x = .ok found ∧ shown e = some (.get name key (found.map fromUtf8Lossy))) ∨
      shown e = none ∧ ∃ error, x = .error error := by
  have hdata := (acts_of_answer hx (h.acts e he)).data
  cases x with
  | ok found =>
    have hname := h.named e he hdata.1
    exact .inl ⟨found,rfl,by simp [shown_of_answer hx, commandOf, hname, Command.map, fromUtf8Lossy_asBytes]⟩
  | error error => exact .inr ⟨by simp [shown_of_answer hx, commandOf],error,rfl⟩

/-- The request for an iterator over the keys that begin with a text. -/
theorem On.scan {start : String} {x : Except String ℕ} (hx : Iterates db start x e) :
    (∃ iterator, x = .ok iterator ∧ Creates iterator e.answer ∧
      shown e = some (.scan name start ((e.after.data.iterators iterator).map scanItem))) ∨
      shown e = none ∧ ∃ error, x = .error error := by
  rcases hx with ⟨rfl,hx⟩ | hx
  · have hdata := (acts_of_answer hx (h.acts e he)).data
    cases x with
    | ok iterator =>
      have hname := h.named e he hdata.1
      refine .inl ⟨iterator,rfl,by rw [hx]; rfl,?_⟩
      rw [shown_of_answer hx, commandOf, hname, Option.map_some, Command.map, fromUtf8Lossy_nil]
      rfl
    | error error => exact .inr ⟨by simp [shown_of_answer hx, commandOf],error,rfl⟩
  · have hdata := (acts_of_answer hx (h.acts e he)).data
    cases x with
    | ok iterator =>
      have hname := h.named e he hdata.1
      refine .inl ⟨iterator,rfl,by rw [hx]; rfl,?_⟩
      rw [shown_of_answer hx, commandOf, hname, Option.map_some, Command.map, fromUtf8Lossy_asBytes]
      rfl
    | error error => exact .inr ⟨by simp [shown_of_answer hx, commandOf],error,rfl⟩

omit he in
theorem On.secure (he : e ∈ evs) (hx : Secures db e.answer) : Secure name e := by
  have hsole : e.before.slot.Live db → e.before.Sole db := sole_of_live ((h.cautious e he).1.one trivial)
  have hacts := (h.acts e he).data
  have hnamed := h.named e he
  obtain ⟨caller,req,reply,before,after⟩ := e
  cases req with
  | put d key value awaitDurable =>
    cases reply with
    | error error => exact hx.elim
    | ok _ =>
      obtain ⟨rfl,rfl⟩ := hx
      have hdata := hacts.2 (hsole hacts.1)
      rw [if_pos rfl, hnamed hacts.1] at hdata
      exact secure_of_sync hdata
  | delete d key =>
    cases reply with
    | error error => exact hx.elim
    | ok _ =>
      cases hx
      have hdata := hacts.2 (hsole hacts.1)
      rw [if_pos rfl, hnamed hacts.1] at hdata
      exact secure_of_sync hdata
  | flush d =>
    cases reply with
    | error error => exact hx.elim
    | ok _ =>
      cases hx
      have hdata := hacts.2 (hsole hacts.1)
      rw [hnamed hacts.1] at hdata
      exact secure_of_sync hdata
  | _ => exact hx.elim

end Events

section Calls
variable {ι Own : Type} {Returned : Own → Type} {Out Adapter : Type} {message : String → AppError}
  {name : String} {db : ℕ} {evs : Events ι Returned} {os : List Out}

abbrev told (evs : Events ι Returned) : List TextCommand := evs.filterMap shown

theorem told_one {e : Event ι World (Op Own) (Reply Returned)} {c : TextCommand} (h : shown e = some c) :
    told [e] = [c] := by
  simp [told, h]

theorem told_none {e : Event ι World (Op Own) (Reply Returned)} (h : shown e = none) : told [e] = [] := by
  simp [told, h]

section One
variable {r : Op Own} {k : Reply Returned r → OpM Returned Out (Answer Adapter)}

theorem nil_of_asks {α : Type} {p q : OpM Returned Out α} {tr : List ((r : Op Own) × Reply Returned r)}
    (h : Consumes p tr os q) (hp : p.Asks fun _ => False) : tr = [] := by
  apply List.eq_nil_iff_forall_not_mem.mpr
  intro x hx
  exact h.asks hp x hx

theorem consumes_one {q : OpM Returned Out (Answer Adapter)} (hk : ∀ x, (k x).Asks fun _ => False)
    (h : Consumes (.call r k) (evs.map Event.answer) os q) :
    evs = [] ∨ ∃ e x, evs = [e] ∧ e.answer = ⟨r,x⟩ := by
  generalize htr : evs.map Event.answer = tr at h
  cases h with
  | refl => exact .inl (List.map_eq_nil_iff.mp htr)
  | @call _ x _ _ tr' _ h =>
    have hnil := nil_of_asks h (hk x)
    subst hnil
    obtain ⟨e,rest,rfl,hx,hrest⟩ := List.map_eq_cons_iff.mp htr
    cases List.map_eq_nil_iff.mp hrest
    exact .inr ⟨e,x,rfl,hx⟩

theorem returns_one {result : Except AppError (Answer Adapter)} (hk : ∀ x, (k x).Asks fun _ => False)
    (h : Returns (.call r k) (evs.map Event.answer) os result) :
    ∃ e x, evs = [e] ∧ e.answer = ⟨r,x⟩ ∧ Returns (k x) [] os result := by
  obtain ⟨x,tr,htr,hrest⟩ := h.of_call
  have hnil := nil_of_asks hrest (hk x)
  subst hnil
  obtain ⟨e,rest,rfl,hx,hnone⟩ := List.map_eq_cons_iff.mp htr
  cases List.map_eq_nil_iff.mp hnone
  exact ⟨e,x,rfl,hx,hrest⟩

end One

theorem returns_reported {α β : Type} {x : Except String α} {f : α → β} {b : β}
    (h : Returns (orFail message x >>= fun a => (pure (f a) : OpM Returned Out β)) [] os (.ok b)) :
    ∃ a, x = .ok a ∧ b = f a := by
  obtain ⟨a,rfl,hrest⟩ := returns_orFail h
  obtain ⟨_,_,hb⟩ := hrest.of_ok
  cases hb
  exact ⟨a,rfl,rfl⟩

variable {q : OpM Returned Out (Answer Adapter)} {a : Answer Adapter} {limit : Option ℕ → ℕ} {key value : String}

theorem reported_silent {α β : Type} (message : String → AppError) (f : α → β) (x : Except String α) :
    (orFail message x >>= fun a => (pure (f a) : OpM Returned Out β)).Asks fun _ => False :=
  (orFail_asks message x).bind fun _ => trivial

theorem putValue_begun (h : On name db evs)
    (hc : Consumes (putValue message db key value : OpM Returned Out (Answer Adapter)) (evs.map Event.answer) os q) :
    Begun name (.ok (.put key value)) (told evs) := by
  rcases consumes_one (r := .put db _ _ _) (reported_silent message fun _ => Answer.done) hc with rfl | ⟨e,x,rfl,hx⟩
  · exact .inl rfl
  · rcases h.put List.mem_cons_self hx with hshown | ⟨hshown,_⟩
    · exact .inr (told_one hshown)
    · exact .inl (told_none hshown)

theorem putValue_answered (h : On name db evs)
    (hr : Returns (putValue message db key value) (evs.map Event.answer) os (.ok a)) :
    Answered limit name (.put key value) (told evs) a := by
  obtain ⟨e,x,rfl,hx,hrest⟩ := returns_one (r := .put db _ _ _) (reported_silent message fun _ => Answer.done) hr
  obtain ⟨_,rfl,rfl⟩ := returns_reported hrest
  rcases h.put List.mem_cons_self hx with hshown | ⟨_,error,herror⟩
  · exact told_one hshown
  · cases herror

theorem deleteKey_begun (h : On name db evs)
    (hc : Consumes (deleteKey message db key : OpM Returned Out (Answer Adapter)) (evs.map Event.answer) os q) :
    Begun name (.ok (.delete key)) (told evs) := by
  rcases consumes_one (r := .delete db _) (reported_silent message fun _ => Answer.done) hc with rfl | ⟨e,x,rfl,hx⟩
  · exact .inl rfl
  · rcases h.delete List.mem_cons_self hx with hshown | ⟨hshown,_⟩
    · exact .inr (told_one hshown)
    · exact .inl (told_none hshown)

theorem deleteKey_answered (h : On name db evs)
    (hr : Returns (deleteKey message db key) (evs.map Event.answer) os (.ok a)) :
    Answered limit name (.delete key) (told evs) a := by
  obtain ⟨e,x,rfl,hx,hrest⟩ := returns_one (r := .delete db _) (reported_silent message fun _ => Answer.done) hr
  obtain ⟨_,rfl,rfl⟩ := returns_reported hrest
  rcases h.delete List.mem_cons_self hx with hshown | ⟨_,error,herror⟩
  · exact told_one hshown
  · cases herror

theorem getValue_begun (h : On name db evs)
    (hc : Consumes (getValue message db key : OpM Returned Out (Answer Adapter)) (evs.map Event.answer) os q) :
    Begun name (.ok (.get key)) (told evs) := by
  rcases consumes_one (r := .get db _) (reported_silent message fun value : Option Bytes => Answer.value key (value.map fromUtf8Lossy)) hc
    with rfl | ⟨e,x,rfl,hx⟩
  · exact .inl rfl
  · rcases h.get List.mem_cons_self hx with ⟨found,_,hshown⟩ | ⟨hshown,_⟩
    · exact .inr ⟨_,told_one hshown⟩
    · exact .inl (told_none hshown)

theorem getValue_answered (h : On name db evs)
    (hr : Returns (getValue message db key) (evs.map Event.answer) os (.ok a)) :
    Answered limit name (.get key) (told evs) a := by
  obtain ⟨e,x,rfl,hx,hrest⟩ := returns_one (r := .get db _)
    (reported_silent message fun value : Option Bytes => Answer.value key (value.map fromUtf8Lossy)) hr
  obtain ⟨found,rfl,rfl⟩ := returns_reported hrest
  rcases h.get List.mem_cons_self hx with ⟨_,hfound,hshown⟩ | ⟨_,error,herror⟩
  · cases hfound
    exact ⟨rfl,told_one hshown⟩
  · cases herror

def scanWith (message : String → AppError) (db limit : ℕ) (x : Except String ℕ) : OpM Returned Out (Answer Adapter) := do
  let iterator ← orFail message x
  let items ← pull message db iterator (limit + 1) []
  pure (.scan (items.take limit) (limit < items.length))

theorem scanItems_consumes {start : String} {n : ℕ}
    (hc : Consumes (scanItems message db start n : OpM Returned Out (Answer Adapter)) (evs.map Event.answer) os q) :
    (evs = [] ∧ ∃ r k, q = .call r k) ∨ ∃ e rest x, evs = e :: rest ∧ Iterates db start x e ∧
      Consumes (scanWith message db n x) (rest.map Event.answer) os q := by
  generalize htr : evs.map Event.answer = tr at hc
  unfold scanItems at hc
  split_ifs at hc with hstart
  · cases hc with
    | refl => exact .inl ⟨List.map_eq_nil_iff.mp htr,_,_,rfl⟩
    | @call _ x _ _ tr' _ hrest =>
      obtain ⟨e,rest,rfl,hx,rfl⟩ := List.map_eq_cons_iff.mp htr
      exact .inr ⟨e,rest,x,rfl,.inl ⟨hstart,hx⟩,hrest⟩
  · cases hc with
    | refl => exact .inl ⟨List.map_eq_nil_iff.mp htr,_,_,rfl⟩
    | @call _ x _ _ tr' _ hrest =>
      obtain ⟨e,rest,rfl,hx,rfl⟩ := List.map_eq_cons_iff.mp htr
      exact .inr ⟨e,rest,x,rfl,.inr hx,hrest⟩

theorem scanWith_asks (message : String → AppError) (db n : ℕ) (x : Except String ℕ) :
    (scanWith message db n x : OpM Returned Out (Answer Adapter)).Asks
      fun r => ∃ iterator, x = .ok iterator ∧ r = .next db iterator := by
  cases x with
  | error e => trivial
  | ok iterator =>
    have hpull : ∀ k items, (pull message db iterator k items : OpM Returned Out _).Asks
        fun r => ∃ it, Except.ok iterator = (.ok it : Except String ℕ) ∧ r = .next db it := by
      intro k
      induction k with
      | zero => exact fun _ => trivial
      | succ k ih =>
        intro items
        refine ⟨⟨iterator,rfl,rfl⟩,fun x => (orFail_asks message x).bind fun item => ?_⟩
        cases item with
        | none => trivial
        | some item => exact ih _
    exact (hpull _ _).bind fun _ => trivial

theorem scanWith_told {n : ℕ} {x : Except String ℕ}
    (hc : Consumes (scanWith message db n x : OpM Returned Out (Answer Adapter)) (evs.map Event.answer) os q) :
    told evs = [] := by
  apply told_silent
  intro e he
  obtain ⟨iterator,_,hreq⟩ := hc.asks (scanWith_asks message db n x) _ (List.mem_map_of_mem he)
  have hsilent : (Op.next db iterator : Op Own).Silent := trivial
  rw [← hreq] at hsilent
  exact hsilent

theorem scanItems_own {start : String} {n : ℕ}
    (hc : Consumes (scanItems message db start n : OpM Returned Out (Answer Adapter)) (evs.map Event.answer) os q) :
    OwnIterators (evs.map Event.answer) := by
  rcases scanItems_consumes hc with ⟨rfl,_⟩ | ⟨e,rest,x,rfl,hx,hrest⟩
  · exact fun x hx => absurd hx List.not_mem_nil
  · intro y hy db' iterator hreq
    have hfirst : y ≠ e.answer := by
      rintro rfl
      rcases hx with ⟨_,hx⟩ | hx
      · rw [hx] at hreq
        cases hreq
      · rw [hx] at hreq
        cases hreq
    have hlater : y ∈ rest.map Event.answer := (List.mem_cons.mp hy).resolve_left hfirst
    obtain ⟨created,rfl,hnext⟩ := hrest.asks (scanWith_asks message db n x) y hlater
    rw [hreq] at hnext
    cases hnext
    refine ⟨e.answer,List.mem_cons_self,?_⟩
    rcases hx with ⟨_,hx⟩ | hx
    · rw [hx]
      exact rfl
    · rw [hx]
      exact rfl

theorem scanItems_begun {start : Option String} {count : Option ℕ} {n : ℕ} (h : On name db evs)
    (hc : Consumes (scanItems message db (start.getD "") n : OpM Returned Out (Answer Adapter))
      (evs.map Event.answer) os q) :
    Begun name (.ok (.scan start count)) (told evs) := by
  rcases scanItems_consumes hc with ⟨rfl,_⟩ | ⟨e,rest,x,rfl,hx,hrest⟩
  · exact .inl rfl
  · have htold : told (e :: rest) = told [e] := by
      rw [← List.singleton_append, told, List.filterMap_append]
      exact (congrArg _ (scanWith_told hrest)).trans (List.append_nil _)
    rw [htold]
    rcases h.scan List.mem_cons_self hx with ⟨iterator,_,_,hshown⟩ | ⟨hshown,_⟩
    · exact .inr ⟨_,told_one hshown⟩
    · exact .inl (told_none hshown)

/-- A request pulls what its iterator had when it was created. -/
theorem pull_answered {held : ℕ → Prop} {iterator n : ℕ} (hheld : held iterator) {items items' : List (String × String)}
    {e₀ : Event ι World (Op Own) (Reply Returned)} (hs : Behaved evs)
    (hchain : (e₀ :: evs).IsChain fun e e' => Aside held e.after e'.before) (hlt : iterator < e₀.after.data.created)
    (hr : Returns (pull message db iterator n items : OpM Returned Out _) (evs.map Event.answer) os (.ok items')) :
    items' = items ++ ((e₀.after.data.iterators iterator).take n).map scanItem := by
  induction n generalizing e₀ evs items os with
  | zero =>
    obtain ⟨_,_,hitems⟩ := hr.of_ok
    cases hitems
    simp
  | succ n ih =>
    obtain ⟨x,tr,htr,hrest⟩ := hr.of_call
    obtain ⟨e,rest,rfl,hx,rfl⟩ := List.map_eq_cons_iff.mp htr
    obtain ⟨haside,hchain⟩ := List.isChain_cons_cons.mp hchain
    obtain ⟨item,rfl,hrest⟩ := returns_orFail hrest
    obtain ⟨hitem,hleft⟩ := (acts_of_answer hx (hs e List.mem_cons_self)).data
    have hbefore := haside.iterators iterator hheld hlt
    rw [hbefore] at hitem hleft
    have hcreated : iterator < e.after.data.created := by
      rw [hleft]
      exact hlt.trans_le haside.created
    have hafter : e.after.data.iterators iterator = (e₀.after.data.iterators iterator).tail := by
      rw [hleft]
      exact Function.update_self ..
    cases hentries : e₀.after.data.iterators iterator with
    | nil =>
      rw [hentries] at hitem
      subst hitem
      obtain ⟨_,_,hitems⟩ := hrest.of_ok
      cases hitems
      simp
    | cons entry entries =>
      rw [hentries] at hitem hafter
      subst hitem
      have hpulled := ih (fun e he => hs e (List.mem_cons_of_mem _ he)) hchain hcreated hrest
      rw [hpulled, hafter, List.append_assoc]
      rfl

theorem scanItems_answered {held : ℕ → Prop} {start : Option String} {count : Option ℕ} (h : On name db evs)
    (hchain : evs.IsChain fun e e' => Aside held e.after e'.before)
    (hheld : ∀ e ∈ evs, ∀ iterator, Creates iterator e.answer → held iterator)
    (hr : Returns (scanItems message db (start.getD "") (limit count)) (evs.map Event.answer) os (.ok a)) :
    Answered limit name (.scan start count) (told evs) a := by
  rcases scanItems_consumes hr with ⟨_,r,k,hcall⟩ | ⟨e,rest,x,rfl,hx,hrest⟩
  · cases hcall
  · have htold : told (e :: rest) = told [e] := by
      rw [← List.singleton_append, told, List.filterMap_append]
      exact (congrArg _ (scanWith_told hrest)).trans (List.append_nil _)
    rw [htold]
    rcases h.scan List.mem_cons_self hx with ⟨iterator,rfl,hcreates,hshown⟩ | ⟨_,error,rfl⟩
    · have hlt : iterator < e.after.data.created := by
        rw [(creates_scans (h.acts e List.mem_cons_self) hcreates).2]
        exact Nat.lt_succ_self _
      obtain ⟨_,hiterator,hrest⟩ := returns_orFail hrest
      cases hiterator
      obtain ⟨items,tr₁,tr₂,os₁,os₂,htr,_,hpull,hend⟩ := hrest.of_bind_ok
      obtain ⟨rfl,_,ha⟩ := hend.of_ok
      cases ha
      rw [List.append_nil] at htr
      subst htr
      have hitems := pull_answered (hheld e List.mem_cons_self iterator hcreates)
        (fun e he => h.acts e (List.mem_cons_of_mem _ he)) hchain hlt hpull
      rw [List.nil_append] at hitems
      subst hitems
      refine ⟨_,told_one hshown,?_,?_⟩
      · rw [← List.map_take, List.take_take, List.map_take, Nat.min_eq_left (Nat.le_succ _)]
      · rw [List.length_map, List.length_take, List.length_map, decide_eq_decide]
        omega
    · exact (Returns.err_ne_ok hrest).elim

section Batches
variable {run : BenchmarkOperation → BenchmarkBatchResponse → OpM Returned Out BenchmarkBatchResponse}
  {m m' : BenchmarkBatchResponse} {operations : List BenchmarkOperation}

/-- The operations of a batch are commands on the database. -/
structure Operates (ι : Type) (db : ℕ) (value : String)
    (run : BenchmarkOperation → BenchmarkBatchResponse → OpM Returned Out BenchmarkBatchResponse) : Prop where
  begun : ∀ {name : String} {evs : Events ι Returned} {os o m q}, On name db evs →
    Consumes (run o m) (evs.map Event.answer) os q → told evs = [] ∨ ∃ c, told evs = [c] ∧ Performs name value o c
  done : ∀ {name : String} {evs : Events ι Returned} {os o m m'}, On name db evs →
    Returns (run o m) (evs.map Event.answer) os (.ok m') → ∃ c, told evs = [c] ∧ Performs name value o c ∧ Found c

theorem told_append (evs evs' : Events ι Returned) :
    told (evs ++ evs') = told evs ++ told evs' := List.filterMap_append ..

theorem runOperations_begun (hrun : Operates ι db value run) (h : On name db evs)
    {q : OpM Returned Out BenchmarkBatchResponse}
    (hc : Consumes (runOperations run operations m) (evs.map Event.answer) os q) :
    ∃ n, List.Forall₂ (Performs name value) (operations.take n) (told evs) := by
  induction operations generalizing m evs os q with
  | nil =>
    generalize htr : evs.map Event.answer = tr at hc
    cases hc
    cases List.map_eq_nil_iff.mp htr
    exact ⟨0,.nil⟩
  | cons o rest ih =>
    rcases Returns.consumes_bind hc with ⟨q',hq,_⟩ | ⟨m₁,tr₁,tr₂,os₁,os₂,htr,_,hfirst,hrest⟩
    · rcases hrun.begun h hq with hnone | ⟨c,hone,hc⟩
      · rw [hnone]
        exact ⟨0,.nil⟩
      · rw [hone]
        exact ⟨1,.cons hc .nil⟩
    · obtain ⟨evs₁,evs₂,rfl,rfl,rfl⟩ := List.map_eq_append_iff.mp htr
      obtain ⟨c,hone,hc,_⟩ := hrun.done (h.sub fun e he => List.mem_append_left _ he) hfirst
      obtain ⟨n,hn⟩ := ih (h.sub fun e he => List.mem_append_right _ he) hrest
      rw [told_append, hone]
      exact ⟨n + 1,.cons hc hn⟩

theorem runOperations_done (hrun : Operates ι db value run) (h : On name db evs)
    (hr : Returns (runOperations run operations m) (evs.map Event.answer) os (.ok m')) :
    List.Forall₂ (Performs name value) operations (told evs) ∧ ∀ c ∈ told evs, Found c := by
  induction operations generalizing m evs os with
  | nil =>
    obtain ⟨htr,_⟩ := hr.of_ok
    cases List.map_eq_nil_iff.mp htr
    exact ⟨.nil,by simp [told]⟩
  | cons o rest ih =>
    obtain ⟨m₁,tr₁,tr₂,os₁,os₂,htr,_,hfirst,hrest⟩ := hr.of_bind_ok
    obtain ⟨evs₁,evs₂,rfl,rfl,rfl⟩ := List.map_eq_append_iff.mp htr
    obtain ⟨c,hone,hc,hfound⟩ := hrun.done (h.sub fun e he => List.mem_append_left _ he) hfirst
    obtain ⟨hall,hfounds⟩ := ih (h.sub fun e he => List.mem_append_right _ he) hrest
    rw [told_append, hone]
    exact ⟨.cons hc hall,List.forall_mem_cons.mpr ⟨hfound,hfounds⟩⟩

variable {client : List BenchmarkOperation → OpM Returned Out BenchmarkBatchResponse} {schedule : List ℕ}
  {clients : List (List BenchmarkOperation)}

theorem joinClients_consumes {q : OpM Returned Out BenchmarkBatchResponse}
    {tr : List ((r : Op Own) × Reply Returned r)} (hc : Consumes (joinClients schedule client clients) tr os q) :
    ∃ os q', Consumes (joinAll schedule (clients.map client)) tr os q' := by
  rcases Returns.consumes_bind hc with ⟨q',hq,_⟩ | ⟨ms,tr₁,tr₂,os₁,os₂,rfl,_,hq,hend⟩
  · exact ⟨_,q',hq⟩
  · cases hend
    rw [List.append_nil]
    exact ⟨_,_,hq⟩

/-- What holds of the commands of each client, holds of the batch. -/
theorem runs_of_each {P : ℕ → List TextCommand → Prop} {each : ℕ → List ((r : Op Own) × Reply Returned r)}
    (h : On name db evs) (hinter : Interleaves each (evs.map Event.answer))
    (hP : ∀ i (evs' : Events ι Returned), On name db evs' → evs'.map Event.answer = each i → P i (told evs')) :
    ∃ each', Interleaves each' (told evs) ∧ ∀ i, P i (each' i) := by
  obtain ⟨eachEvent,hevents,hanswers⟩ := hinter.unmap
  refine ⟨_,hevents.filterMap shown,fun i => hP i _ ?_ (hanswers i)⟩
  exact h.sub fun e he => hevents.mem.mpr ⟨i,he⟩

theorem joinClients_begun (h : On name db evs) {q : OpM Returned Out BenchmarkBatchResponse}
    (hclient : ∀ operations {evs' : Events ι Returned} {os q}, On name db evs' → Consumes (client operations) (evs'.map Event.answer) os q →
      ∃ n, List.Forall₂ (Performs name value) (operations.take n) (told evs'))
    (hc : Consumes (joinClients schedule client clients) (evs.map Event.answer) os q) :
    Begun name (.ok (.benchmarkBatch value clients)) (told evs) := by
  obtain ⟨_,_,hq⟩ := joinClients_consumes hc
  obtain ⟨each,hinter,hreached⟩ := consumes_joinAll hq
  have heach : ∃ each', Interleaves each' (told evs) ∧
      ∀ i, ∃ n, List.Forall₂ (Performs name value) ((clients.getD i []).take n) (each' i) := by
    apply runs_of_each (P := fun i cs => ∃ n, List.Forall₂ (Performs name value) ((clients.getD i []).take n) cs)
      h hinter
    intro i evs' hon hanswers
    rw [List.getD_eq_getElem?_getD]
    cases hi : clients[i]? with
    | none =>
      have hnone := hreached.beyond (i := i) (by rw [List.getElem?_map, hi]; rfl)
      rw [hnone] at hanswers
      cases List.map_eq_nil_iff.mp hanswers
      exact ⟨0,.nil⟩
    | some operations =>
      obtain ⟨_,_,hconsumes⟩ := hreached.at (i := i) (by rw [List.getElem?_map, hi]; rfl)
      rw [← hanswers] at hconsumes
      exact hclient operations hon hconsumes
  obtain ⟨each',hinter',hperforms⟩ := heach
  choose n hn using hperforms
  exact ⟨n,each',hinter',hn⟩

theorem joinClients_done (h : On name db evs)
    (hclient : ∀ operations {evs' : Events ι Returned} {os m'}, On name db evs' → Returns (client operations) (evs'.map Event.answer) os (.ok m') →
      List.Forall₂ (Performs name value) operations (told evs') ∧ ∀ c ∈ told evs', Found c)
    (hr : Returns (joinClients schedule client clients) (evs.map Event.answer) os (.ok m')) :
    Runs name value (fun i => clients.getD i []) (told evs) ∧ ∀ c ∈ told evs, Found c := by
  obtain ⟨ms,tr₁,tr₂,os₁,os₂,htr,_,hjoin,hend⟩ := hr.of_bind_ok
  obtain ⟨rfl,_,_⟩ := hend.of_ok
  rw [List.append_nil] at htr
  subst htr
  obtain ⟨each,hinter,hjoined⟩ := returns_joinAll hjoin
  have heach : ∃ each', Interleaves each' (told evs) ∧ ∀ i,
      List.Forall₂ (Performs name value) (clients.getD i []) (each' i) ∧ ∀ c ∈ each' i, Found c := by
    apply runs_of_each
      (P := fun i cs => List.Forall₂ (Performs name value) (clients.getD i []) cs ∧ ∀ c ∈ cs, Found c) h hinter
    intro i evs' hon hanswers
    rw [List.getD_eq_getElem?_getD]
    cases hi : clients[i]? with
    | none =>
      have hnone := hjoined.returned.beyond (i := i) (by rw [List.getElem?_map, hi]; rfl)
      rw [hnone] at hanswers
      cases List.map_eq_nil_iff.mp hanswers
      exact ⟨.nil,by simp [told]⟩
    | some operations =>
      obtain ⟨_,_,_,hreturns⟩ := hjoined.returned.at (i := i) (by rw [List.getElem?_map, hi]; rfl)
      rw [← hanswers] at hreturns
      exact hclient operations hon hreturns
  obtain ⟨each',hinter',hboth⟩ := heach
  refine ⟨⟨each',hinter',fun i => (hboth i).1⟩,fun c hc => ?_⟩
  obtain ⟨i,hi⟩ := hinter'.mem.mp hc
  exact (hboth i).2 c hi

end Batches

end Calls

end SlatedbCloudflare.Instance
