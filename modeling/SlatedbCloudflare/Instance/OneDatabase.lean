import SlatedbCloudflare.Instance.Handlers

/-! # One live database per instance

What the slot and the opened databases satisfy while no critical section is under
way, and what holds throughout. A cautious run is one in which no database is
opened after a failed close; that it keeps one database is the part of the
invariants that speaks of such runs only.
-/
namespace SlatedbCloudflare.Instance
open Programs Locks ObjectStore

/-- At most one database is live, and it is the one in the slot if there is one. -/
structure OneLive (s : State) : Prop where
  unique : ∀ d e, s.Live d → s.Live e → d = e
  held : ∀ a, s.active = some a → s.Live a.db

def Opened {Own : Type} {Returned : Own → Type} : (r : Op Own) → Reply Returned r → Prop
  | .build _, .ok _ => True
  | _, _ => False

def Serve {Own : Type} {Returned : Own → Type} (cautious : Prop) (s : State) (r : Op Own)
    (x : Reply Returned r) (t : State) : Prop :=
  Does s r x t ∧ (cautious → Opened r x → s.failed = [])

structure Passing (cautious : Prop) (s : State) : Prop where
  closed_opened : ∀ d ∈ s.closed, d < s.opened.length
  failed_live : ∀ d ∈ s.failed, s.Live d
  one : cautious → OneLive s

structure Settled (cautious : Prop) (s : State) : Prop where
  passing : Passing cautious s
  kept : ∀ a, s.active = some a → a.db ∉ s.failed ∧ s.Live a.db ∧ s.opened[a.db]? = some a.name
  idle : cautious → s.active = none → s.failed = [] → ∀ d, ¬ s.Live d

section States
variable {s : State} {a : ActiveDb} {cautious : Prop} {d e : ℕ} {name : String}

@[simp] theorem live_take : s.take.Live d ↔ s.Live d := Iff.rfl

@[simp] theorem live_set : (s.set a).Live d ↔ s.Live d := Iff.rfl

@[simp] theorem live_fail : (s.fail e).Live d ↔ s.Live d := Iff.rfl

@[simp] theorem live_close : (s.close e).Live d ↔ s.Live d ∧ d ≠ e := by
  simp only [State.Live, State.close, List.mem_cons, not_or]
  constructor
  · rintro ⟨hlt,hne,hmem⟩
    exact ⟨⟨hlt,hmem⟩,hne⟩
  · rintro ⟨⟨hlt,hmem⟩,hne⟩
    exact ⟨hlt,hne,hmem⟩

theorem opened_build (s : State) (name : String) : (s.build name).opened.length = s.opened.length + 1 := by
  simp [State.build]

theorem live_build (h : s.Live d) : (s.build name).Live d := by
  have hlt := h.1
  have hbuilt := opened_build s name
  exact ⟨by omega,h.2⟩

/-- A database built where none was live is the only live one. -/
theorem eq_of_live_build (h : (s.build name).Live d) (hidle : ∀ e, ¬ s.Live e) :
    d = s.opened.length := by
  have hlt := h.1
  rw [opened_build] at hlt
  by_contra hne
  have hd : d < s.opened.length := by omega
  exact hidle d ⟨hd,h.2⟩

theorem Settled.empty : Settled cautious State.empty := by
  have hidle : ∀ d, ¬ State.empty.Live d := by
    intro d hd
    have hlt := hd.1
    simp [State.empty] at hlt
  have hone : OneLive State.empty := ⟨fun d _ hd => (hidle d hd).elim,nofun⟩
  exact ⟨⟨nofun,nofun,fun _ => hone⟩,nofun,fun _ _ _ => hidle⟩

theorem Settled.take (h : Settled cautious s) : Passing cautious s.take :=
  ⟨h.passing.closed_opened,h.passing.failed_live,fun hc => ⟨(h.passing.one hc).unique,nofun⟩⟩

theorem Settled.vacant (h : Settled cautious s) (hnone : s.active = none) : Settled cautious s.take := by
  have heq : s.take = s := by
    cases s
    cases hnone
    rfl
  rw [heq]
  exact h

theorem Settled.closed (h : Settled cautious s) (ha : s.active = some a) :
    Settled cautious (s.take.close a.db) := by
  obtain ⟨hnot,hlive,_⟩ := h.kept a ha
  have hbound : ∀ d ∈ (s.take.close a.db).closed, d < s.opened.length := by
    intro d hd
    rcases List.mem_cons.mp hd with rfl | hd
    · exact hlive.1
    · exact h.passing.closed_opened d hd
  have hone : cautious → OneLive (s.take.close a.db) := by
    intro hc
    refine ⟨fun d e hd he => ?_,nofun⟩
    rw [live_close, live_take] at hd he
    exact (h.passing.one hc).unique d e hd.1 he.1
  refine ⟨⟨hbound,fun d hd => ?_,hone⟩,nofun,fun hc _ _ d hd => ?_⟩
  · rw [live_close, live_take]
    refine ⟨h.passing.failed_live d hd,fun heq => ?_⟩
    subst heq
    exact hnot hd
  · rw [live_close, live_take] at hd
    exact hd.2 ((h.passing.one hc).unique d a.db hd.1 hlive)

theorem Settled.unclosed (h : Settled cautious s) (ha : s.active = some a) :
    Settled cautious (s.take.fail a.db) := by
  obtain ⟨_,hlive,_⟩ := h.kept a ha
  have hfailed : ∀ d ∈ (s.take.fail a.db).failed, s.Live d := by
    intro d hd
    rcases List.mem_cons.mp hd with rfl | hd
    · exact hlive
    · exact h.passing.failed_live d hd
  have hone : cautious → OneLive (s.take.fail a.db) := fun hc => ⟨(h.passing.one hc).unique,nofun⟩
  exact ⟨⟨h.passing.closed_opened,hfailed,hone⟩,nofun,nofun⟩

theorem Settled.built (h : Settled cautious s) (hnone : s.active = none)
    (hok : cautious → s.failed = []) (name : String) : Passing cautious (s.build name) := by
  refine ⟨fun d hd => ?_,fun d hd => live_build (h.passing.failed_live d hd),fun hc => ⟨?_,?_⟩⟩
  · have hlt := h.passing.closed_opened d hd
    have hbuilt := opened_build s name
    omega
  · intro d e hd he
    have hidle := h.idle hc hnone (hok hc)
    exact (eq_of_live_build hd hidle).trans (eq_of_live_build he hidle).symm
  · intro a ha
    have hactive : (s.build name).active = none := hnone
    rw [ha] at hactive
    cases hactive

theorem Settled.installed (h : Settled cautious s) (hnone : s.active = none)
    (hok : cautious → s.failed = []) (name : String) :
    Settled cautious ((s.build name).set ⟨name,s.opened.length⟩) := by
  have hbuilt := h.built hnone hok name
  have hfresh : s.opened.length ∉ s.closed := fun hmem =>
    absurd (h.passing.closed_opened _ hmem) (Nat.lt_irrefl _)
  have hlive : (s.build name).Live s.opened.length := by
    refine ⟨?_,hfresh⟩
    rw [opened_build]
    omega
  refine ⟨⟨hbuilt.closed_opened,hbuilt.failed_live,fun hc => ⟨(hbuilt.one hc).unique,?_⟩⟩,?_,nofun⟩
  · intro a ha
    cases ha
    exact hlive
  · intro a ha
    cases ha
    refine ⟨fun hmem => ?_,hlive,by simp [State.set, State.build]⟩
    exact absurd (h.passing.failed_live _ hmem).1 (Nat.lt_irrefl _)

end States

section Sections
variable {Own : Type} {Returned : Own → Type} {Out : Type} {cautious : Prop} {s : State}

theorem neutral_of_harmless {r : Op Own} (h : r.Harmless) :
    Neutral (@Serve Own Returned cautious) r :=
  fun s x t hs => h.neutral s x t hs.1

/-- What `openDb` may do: fail and change nothing, or build one database. -/
def Opening (openDb : String → OpM Returned Out ActiveDb) : Prop :=
  ∀ (cautious : Prop) (P : State → Prop) (Q : Except AppError ActiveDb → State → Prop) name s, P s →
    (∀ e, Q (.error e) s) → ((cautious → s.failed = []) → P (s.build name) ∧
      Q (.ok ⟨name,s.opened.length⟩) (s.build name)) → Wp (Serve cautious) P Q (openDb name) s

variable {openDb : String → OpM Returned Out ActiveDb} {name : String}

theorem install_wp (ho : Opening openDb) (h : Settled cautious s) (hnone : s.active = none) :
    Wp (Serve cautious) (Passing cautious) (fun _ t => Settled cautious t) (install openDb name) s := by
  apply Wp.bind
  refine ho cautious _ _ name s h.passing (fun _ => h) fun hok => ⟨h.built hnone hok name,?_⟩
  rintro _ t ⟨rfl,_⟩
  have hinstalled := h.installed hnone hok name
  exact ⟨hinstalled.passing,hinstalled⟩

theorem currentOr_wp (ho : Opening openDb) (mixed : AppError) (h : Settled cautious s) :
    Wp (Serve cautious) (Passing cautious) (fun _ t => Settled cautious t)
      (currentOr mixed openDb name) s := by
  rintro x t ⟨⟨rfl,rfl⟩,_⟩
  refine ⟨h.passing,?_⟩
  cases ha : t.active with
  | some current =>
    change Wp _ _ _ (if current.name ≠ name then .err mixed else pure current.db) t
    by_cases hname : current.name ≠ name
    · rw [if_pos hname]
      exact h
    · rw [if_neg hname]
      exact h
  | none =>
    change Wp _ _ _ (install openDb name >>= fun opened => pure opened.db) t
    apply Wp.bind
    apply (install_wp ho h ha).imp
    intro r u hu
    cases r <;> exact hu

theorem replace_wp (ho : Opening openDb) {message : String → AppError} {between : OpM Returned Out Unit}
    (hb : between.Asks Op.Harmless) (h : Settled cautious s) :
    Wp (Serve cautious) (Passing cautious) (fun _ t => Settled cautious t)
      (replace message between openDb name) s := by
  -- what follows the closing, from any settled state with an empty slot
  have hrest : ∀ t, Settled cautious t → t.active = none →
      Wp (Serve cautious) (Passing cautious) (fun _ t => Settled cautious t)
        (do between; let _ ← install openDb name; pure ()) t := by
    intro t ht hnone
    apply Wp.bind
    apply Wp.neutral (hb.imp fun r hr => neutral_of_harmless hr) ht.passing
    intro r
    cases r with
    | error e => exact ht
    | ok _ =>
      apply Wp.bind
      apply (install_wp ho ht hnone).imp
      intro r u hu
      cases r <;> exact hu
  rintro x t ⟨⟨rfl,rfl⟩,_⟩
  refine ⟨h.take,?_⟩
  cases ha : s.active with
  | none => exact hrest _ (h.vacant ha) rfl
  | some current =>
    rintro (e | _) t ⟨rfl,_⟩
    · have hunclosed := h.unclosed ha
      exact ⟨hunclosed.passing,hunclosed⟩
    · have hclosed := h.closed ha
      exact ⟨hclosed.passing,hrest _ hclosed rfl⟩

end Sections

section Pools
variable {Own : Type} {Returned : Own → Type} {Out α ι : Type} [DecidableEq ι]
  {p : ι → HandlerM Returned Out α} {es : List (Event ι State (Op Own) (Reply Returned))}
  {T : Pool ι State (Op Own) (Reply Returned) Out AppError α}

/-- A program that keeps the invariants in cautious runs, and those that hold of
every run in every run. -/
def Keeps (q : HandlerM Returned Out α) : Prop :=
  ∀ cautious : Prop, Disciplined (Serve cautious) (Settled cautious) (Passing cautious) q none

theorem passing_of_run (hp : ∀ i, Keeps (p i)) (h : Run Does (start State.empty p) es T)
    (cautious : Prop) (hes : ∀ e ∈ es, cautious → Opened e.req e.reply → e.before.failed = []) :
    ∀ e ∈ es, Passing cautious e.before ∧ Passing cautious e.after := by
  have hrun : Run (Serve cautious) (start State.empty p) es T :=
    h.restrict fun e he => ⟨h.serves e he,hes e he⟩
  have hstart : Kept (Serve cautious) (Settled cautious) (Passing cautious) (start State.empty p) :=
    .start .empty Settled.empty.passing fun i => hp i cautious
  exact (hrun.kept hstart).2

/-- An opening leaves one live database only if no database is left by a failed close. -/
theorem failed_nil_of_opened {r : Op Own} {x : Reply Returned r} {s t : State}
    (hs : Passing False s) (hd : Does s r x t) (ho : Opened r x) (ht : OneLive t) : s.failed = [] := by
  cases r with
  | build name =>
    rcases x with e | db
    · exact ho.elim
    · obtain ⟨rfl,rfl⟩ := hd
      rw [List.eq_nil_iff_forall_not_mem]
      intro d hd
      have hlive := hs.failed_live d hd
      have hfresh : (s.build name).Live s.opened.length := by
        refine ⟨by rw [opened_build]; omega,fun hmem => ?_⟩
        exact absurd (hs.closed_opened _ hmem) (Nat.lt_irrefl _)
      have heq := ht.unique d s.opened.length (live_build hlive) hfresh
      exact absurd hlive.1 (by omega)
  | _ => exact ho.elim

/-- In every state of the run at most one database is live, the one in the slot if any. -/
def LiveThroughout (es : List (Event ι State (Op Own) (Reply Returned))) : Prop :=
  ∀ e ∈ es, OneLive e.before ∧ OneLive e.after

/-- No database is opened once the close of another one has failed. -/
def OpensBeforeFailures (es : List (Event ι State (Op Own) (Reply Returned))) : Prop :=
  ∀ e ∈ es, Opened e.req e.reply → e.before.failed = []

theorem liveThroughout_iff (hp : ∀ i, Keeps (p i)) (h : Run Does (start State.empty p) es T) :
    LiveThroughout es ↔ OpensBeforeFailures es := by
  constructor
  · intro hone e he ho
    have hpassing := passing_of_run hp h False (fun _ _ hc => hc.elim) e he
    exact failed_nil_of_opened hpassing.1 (h.serves e he) ho (hone e he).2
  · intro hes e he
    have hpassing := passing_of_run hp h True (fun e he _ => hes e he) e he
    exact ⟨hpassing.1.one trivial,hpassing.2.one trivial⟩

end Pools

section Routes
variable {Own : Type} {Returned : Own → Type} {Out Adapter α : Type} (message : String → AppError)
  (db : ℕ) {P : Op Own → Prop}

theorem orFail_asks (x : Except String α) : (orFail message x : OpM Returned Out α).Asks P := by
  cases x <;> trivial

theorem nothing_harmless : (pure () : OpM Returned Out Unit).Asks Op.Harmless := trivial

theorem putValue_harmless (key value : String) :
    (putValue message db key value : OpM Returned Out (Answer Adapter)).Asks Op.Harmless :=
  ⟨trivial,fun x => (orFail_asks message x).bind fun _ => trivial⟩

theorem getValue_harmless (key : String) :
    (getValue message db key : OpM Returned Out (Answer Adapter)).Asks Op.Harmless :=
  ⟨trivial,fun x => (orFail_asks message x).bind fun _ => trivial⟩

theorem deleteKey_harmless (key : String) :
    (deleteKey message db key : OpM Returned Out (Answer Adapter)).Asks Op.Harmless :=
  ⟨trivial,fun x => (orFail_asks message x).bind fun _ => trivial⟩

theorem flushMemTable_harmless :
    (flushMemTable message db : OpM Returned Out (Answer Adapter)).Asks Op.Harmless :=
  ⟨trivial,fun x => (orFail_asks message x).bind fun _ => trivial⟩

theorem pull_harmless (iterator n : ℕ) (items : List (String × String)) :
    (pull message db iterator n items : OpM Returned Out _).Asks Op.Harmless := by
  induction n generalizing items with
  | zero => trivial
  | succ n ih =>
    refine ⟨trivial,fun x => (orFail_asks message x).bind fun item => ?_⟩
    cases item with
    | none => trivial
    | some item => exact ih _

theorem scanItems_harmless (text : String) (limit : ℕ) :
    (scanItems message db text limit : OpM Returned Out (Answer Adapter)).Asks Op.Harmless := by
  have hrest : ∀ x : Except String ℕ, (do
      let iterator ← orFail message x
      let items ← pull message db iterator (limit + 1) []
      pure (.scan (items.take limit) (limit < items.length)) :
        OpM Returned Out (Answer Adapter)).Asks Op.Harmless := by
    intro x
    apply (orFail_asks message x).bind
    intro iterator
    exact (pull_harmless message db iterator _ _).bind fun _ => trivial
  by_cases htext : text = ""
  · rw [scanItems, if_pos htext]
    exact ⟨trivial,hrest⟩
  · rw [scanItems, if_neg htext]
    exact ⟨trivial,hrest⟩

theorem runOperations_asks
    {run : BenchmarkOperation → BenchmarkBatchResponse → OpM Returned Out BenchmarkBatchResponse}
    (hr : ∀ operation m, (run operation m).Asks P) (operations : List BenchmarkOperation)
    (m : BenchmarkBatchResponse) : (runOperations run operations m).Asks P := by
  induction operations generalizing m with
  | nil => trivial
  | cons operation rest ih => exact (hr operation m).bind ih

theorem runClients_asks {client : List BenchmarkOperation → OpM Returned Out BenchmarkBatchResponse}
    (hc : ∀ operations, (client operations).Asks P) (clients : List (List BenchmarkOperation))
    (m : BenchmarkBatchResponse) : (runClients client clients m).Asks P := by
  induction clients generalizing m with
  | nil => trivial
  | cons operations rest ih => exact (hc operations).bind fun measured => ih _

theorem Keeps.free {p : OpM Returned Out α} (hp : p.Asks Op.Harmless) :
    Keeps (Locks.free p) :=
  fun _ => Disciplined.free (hp.imp fun _ hr => neutral_of_harmless hr)

theorem Keeps.guarded {openDb : String → OpM Returned Out ActiveDb} (ho : Opening openDb)
    (mixed : AppError) (name : String) {f : ℕ → OpM Returned Out α}
    (hf : ∀ db, (f db).Asks Op.Harmless) :
    Keeps (do let db ← withLock (currentOr mixed openDb name); Locks.free (f db)) := by
  intro cautious
  apply Disciplined.withLock (fun s hs => currentOr_wp ho mixed hs)
  exact fun db => Keeps.free (hf db) cautious

theorem Keeps.replacing {openDb : String → OpM Returned Out ActiveDb} (ho : Opening openDb)
    {between : OpM Returned Out Unit} (hb : between.Asks Op.Harmless) {name : String}
    {f : Unit → HandlerM Returned Out α} (hf : ∀ u, Keeps (f u)) :
    Keeps (withLock (replace message between openDb name) >>= f) := by
  intro cautious
  apply Disciplined.withLock (fun s hs => replace_wp ho hb hs)
  exact fun u => hf u cautious

theorem Keeps.reading {β : Type} {p : OpM Returned Out β} {f : β → OpM Returned Out α}
    (hp : p.Asks Op.Harmless) (hf : ∀ b, (f b).Asks Op.Harmless) :
    Keeps (do let b ← withLock p; Locks.free (f b)) := by
  intro cautious
  apply Disciplined.withLock
  · intro s hs
    exact Wp.neutral (hp.imp fun _ hr => neutral_of_harmless hr) hs.passing fun _ => hs
  · exact fun b => Keeps.free (hf b) cautious

end Routes

end SlatedbCloudflare.Instance
