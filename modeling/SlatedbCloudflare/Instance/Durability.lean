import SlatedbCloudflare.Instance.OneStore

/-! # What survives a crash

An instance may stop at any point of a run and start again from what is left in its
buckets: at least what was safe, at most what was written. Its lives together are then
one history of a key-value store with the last writes of each life lost, but none that a
request was told is safe.
-/
namespace SlatedbCloudflare.Instance
open Programs Locks ObjectStore Utf8 Histories

variable {ι Own : Type} {Returned : Own → Type} {Out Adapter : Type}

section Cuts
variable {w t : World} {es : Events ι Returned} {name : String} {keep : ℕ}

theorem writes_events (name : String) (es : Events ι Returned) :
    writes name (es.filterMap command) = es.filterMap fun e => (command e).bind (Command.write name) :=
  List.filterMap_filterMap ..

theorem Path.durable (h : Path w es t) (hes : ∀ e ∈ es, Advances e.before e.after (command e)) (name : String) :
    w.data.durable name ≤ t.data.durable name ∧ ∀ e ∈ es, e.after.data.durable name ≤ t.data.durable name := by
  have hrelates := h.relates (R := fun w t => w.data.durable name ≤ t.data.durable name) (fun _ => le_rfl)
    (fun _ _ _ => le_trans) fun e he => (hes e he).durable name
  exact ⟨hrelates.1,fun e he => (hrelates.2 e he).2⟩

/-- If at least what is safe is kept of a log, then the events split where the last of what
was kept was written, and all was safe at no later point. -/
theorem Path.cut (h : Path w es t) (hes : ∀ e ∈ es, Advances e.before e.after (command e))
    (hstart : (w.data.logs name).length ≤ w.data.durable name) (hsafe : t.data.durable name ≤ keep)
    (hkeep : keep ≤ (t.data.logs name).length) :
    ∃ kept lost, es = kept ++ lost ∧
      (t.data.logs name).take keep = w.data.logs name ++ writes name (kept.filterMap command) ∧
      ∀ e ∈ lost, ¬ Secure name e := by
  obtain ⟨_,hlogs⟩ := Path.advances h hes
  have hbegin : (w.data.logs name).length ≤ keep := hstart.trans ((Path.durable h hes name).1.trans hsafe)
  have hcount : keep - (w.data.logs name).length ≤
      (es.filterMap fun e => (command e).bind (Command.write name)).length := by
    rw [hlogs name, writes_events, List.length_append] at hkeep
    omega
  obtain ⟨kept,lost,rfl,hkept,hlost⟩ := exists_cut _ es hcount
  refine ⟨kept,lost,rfl,?_,?_⟩
  · rw [hlogs name, writes_events, writes_events, List.take_append, List.take_of_length_le hbegin, hkept]
  · intro e he hsecure
    obtain ⟨before,after,rfl⟩ := List.append_of_mem he
    have hmem : ∀ e' ∈ kept ++ (before ++ [e]), e' ∈ kept ++ (before ++ e :: after) := by
      intro e' he'
      simp only [List.mem_append, List.mem_cons, List.not_mem_nil, or_false] at he' ⊢
      tauto
    have hsplit : kept ++ (before ++ e :: after) = (kept ++ (before ++ [e])) ++ after := by simp
    rw [hsplit] at h
    obtain ⟨u,hfirst,_⟩ := path_append.mp h
    have hu : u = e.after := by
      rw [← List.append_assoc] at hfirst
      obtain ⟨_,_,hlast⟩ := path_append.mp hfirst
      exact hlast.2
    subst hu
    -- all that was written up to here is kept, but the first lost event wrote more
    have hthere := (Path.advances hfirst fun e' he' => hes e' (hmem e' he')).2 name
    have hlater := (Path.durable h (by rw [← hsplit]; exact hes) name).2 e (by simp)
    have hlength : (kept.filterMap fun e => (command e).bind (Command.write name)).length =
        keep - (w.data.logs name).length := by
      rw [hkept, List.length_take]
      omega
    have hfull : (e.after.data.logs name).length = (w.data.logs name).length +
        ((keep - (w.data.logs name).length) +
          ((before ++ [e]).filterMap fun e => (command e).bind (Command.write name)).length) := by
      rw [hthere, writes_events, List.filterMap_append, List.length_append, List.length_append, hlength]
    have hnothing : ((before ++ [e]).filterMap fun e => (command e).bind (Command.write name)).length = 0 := by
      have hall := hsecure.symm.le.trans (hlater.trans hsafe)
      omega
    have hnone := List.filterMap_eq_nil_iff.mp (List.length_eq_zero_iff.mp hnothing)
    cases before with
    | nil => exact hlost e (by simp) (hnone e (by simp))
    | cons first rest => exact hlost first (by simp) (hnone first (by simp))

end Cuts

section Lives
variable [DecidableEq ι] {limit : Option ℕ → ℕ} {requests : ι → Request} {p : ι → HandlerM Returned Out (Answer Adapter)}
  {w : World} {es : Events ι Returned} {texts left : String → List (Write String String)}
  {T : Pool ι World (Op Own) (Reply Returned) Out AppError (Answer Adapter)}

/-- The last event of a request that was told so left everything safe. -/
theorem Sound.secured (h : Sound p w es T) {i : ι} {req : Request} (hform : Form ι limit req (p i)) {call : Call}
    (hcall : req.call = .ok call) (hack : call.Acknowledges) {a : Answer Adapter} (hi : T.thread i = .ok a) :
    ∃ evs e, own i es = evs ++ [e] ∧ Secure req.database e := by
  obtain ⟨tr,os,hc,hevs⟩ := h.threads i
  rw [hi] at hc
  have hr : Returns (p i) tr os (.ok a) := hc
  generalize p i = q at hform hr
  cases hform with
  | onDatabase hcall' hhushed hbuilt hbody =>
    cases hcall'.symm.trans hcall
    obtain ⟨db,tr₁,tr₂,os₁,os₂,htr,hcurrent,hf⟩ := returns_section hr
    rw [hevs] at htr
    obtain ⟨evs₁,evs₂,hown,rfl,rfl⟩ := List.map_eq_append_iff.mp htr
    have hon : On _ db evs₂ := h.on (fun e he => (mem_own.mp (hown ▸ he)).1) hbuilt hcurrent
    obtain ⟨evs,e,rfl,hsecures⟩ := hbody.secured hack hf
    have hlast : e ∈ evs ++ [e] := List.mem_append_right _ (List.mem_singleton.mpr rfl)
    exact ⟨evs₁ ++ evs,e,by rw [hown, List.append_assoc],hon.secure hlast hsecures⟩
  | plain hq ha =>
    obtain ⟨call',hcall',hplain⟩ := ha tr os a hr
    cases hcall'.symm.trans hcall
    cases call with
    | put | delete | flush => cases a <;> exact hplain.elim
    | _ => exact hack.elim

structure Life (ι : Type) {Own : Type} (Returned : Own → Type) (Out Adapter : Type) where
  schedules : ι → List ℕ
  requests : ι → Request
  events : Events ι Returned
  last : Pool ι World (Op Own) (Reply Returned) Out AppError (Answer Adapter)

/-- A crash leaves at least what is safe of the logs, and nothing that was not written. -/
def Crash (d : Data) (left : String → List (Write String String)) : Prop :=
  ∀ name, ∃ keep, d.durable name ≤ keep ∧ (left name).map textWrite = (d.logs name).take keep

inductive Lives (handler : List ℕ → Request → HandlerM Returned Out (Answer Adapter))
    (texts : String → List (Write String String)) :
    List (Life ι Returned Out Adapter) → (String → List (Write String String)) → Prop
  | nil : Lives handler texts [] texts
  | snoc {lives : List (Life ι Returned Out Adapter)} {found left : String → List (Write String String)}
      (h : Lives handler texts lives found) (l : Life ι Returned Out Adapter)
      (hrun : Run Acts (start (World.start found) fun i => handler (l.schedules i) (l.requests i)) l.events l.last)
      (hopen : OpensBeforeFailures (l.events.map (Event.map World.slot))) (hcrash : Crash l.last.state.data left) :
      Lives handler texts (lives ++ [l]) left

/-- What is left of a life: the events up to some point, with all of every request to the
database that was told that its writes are safe. -/
structure Remembers (limit : Option ℕ → ℕ) (name : String) (l : Life ι Returned Out Adapter) (kept : Events ι Returned) :
    Prop where
  before : kept <+: l.events
  acknowledged : ∀ i a call, l.last.thread i = .ok a → (l.requests i).database = name →
    (l.requests i).call = .ok call → call.Acknowledges → own i kept = own i l.events
  begun : ∀ i, Begun (l.requests i).database (l.requests i).call (told (own i l.events))
  answered : ∀ i a, l.last.thread i = .ok a → ∃ call, (l.requests i).call = .ok call ∧
    Answered limit (l.requests i).database call (told (own i l.events)) a

/-- What is left of the lives is one history of the database, which shows what is found next. -/
def Durable (limit : Option ℕ → ℕ) (texts : String → List (Write String String)) (lives : List (Life ι Returned Out Adapter))
    (left : String → List (Write String String)) (name : String) : Prop :=
  ∃ cuts, List.Forall₂ (Remembers limit name) lives cuts ∧
    Legal textKeys (stored texts) (about name (cuts.flatMap told)) ∧
    outcome (stored texts) (about name (cuts.flatMap told)) name = stored left name

theorem Sound.remembers {l : Life ι Returned Out Adapter} (h : Sound p (World.start texts) l.events l.last)
    (hforms : ∀ i, Form ι limit (l.requests i) (p i)) (hcrash : Crash l.last.state.data left) (name : String) :
    ∃ kept, Remembers limit name l kept ∧ Legal textKeys (stored texts) (told kept) ∧
      outcome (stored texts) (told kept) name = stored left name := by
  obtain ⟨keep,hsafe,hleft⟩ := hcrash name
  have hkept := (h.path.invariant (I := fun w => w.data.Kept) (kept_start texts) fun e he hk =>
    (h.advances e he).kept).1
  have hbounded : l.last.state.data.durable name ≤ min keep (l.last.state.data.logs name).length :=
    le_min hsafe (hkept name)
  have hall : ((World.start texts).data.logs name).length ≤ (World.start texts).data.durable name := le_rfl
  obtain ⟨kept,lost,hes,hlogs,hlost⟩ := Path.cut h.path h.advances hall hbounded (min_le_right _ _)
  have hlinear := h.linear hforms
  have hgiven := h.given hforms
  have hpath := h.path
  have hadvances := h.advances
  rw [hes] at hpath hgiven
  obtain ⟨u,hfirst,_⟩ := path_append.mp hpath
  have hin : ∀ e ∈ kept, e ∈ l.events := by
    intro e he
    rw [hes]
    exact List.mem_append_left _ he
  obtain ⟨hlegal,hshows⟩ := Path.legal hfirst (fun e he => hadvances e (hin e he)) fun c hc =>
    hgiven c (by rw [List.filterMap_append]; exact List.mem_append_left _ hc)
  refine ⟨kept,⟨⟨lost,hes.symm⟩,?_,hlinear.begun,hlinear.answered⟩,hlegal,?_⟩
  · intro i a call hi hname hcall hack
    obtain ⟨evs,e,hown,hsecure⟩ := h.secured (hforms i) hcall hack hi
    rw [hname] at hsecure
    have hsplit : own i l.events = own i kept ++ own i lost := by rw [hes, own_append]
    rcases List.eq_nil_or_concat (own i lost) with hnil | ⟨rest,last,hlast⟩
    · rw [hsplit, hnil, List.append_nil]
    · rw [List.concat_eq_append] at hlast
      rw [hsplit, hlast, ← List.append_assoc] at hown
      obtain rfl : last = e := by
        have heq := (List.append_inj' hown rfl).2
        exact List.singleton_inj.mp heq
      have hmem : last ∈ own i lost := hlast ▸ List.mem_append_right _ (List.mem_singleton.mpr rfl)
      exact absurd hsecure (hlost last (mem_own.mp hmem).1)
  · have hu := (Path.advances hfirst fun e he => hadvances e (hin e he)).2 name
    have htake : (left name).map textWrite = u.data.logs name := by
      rw [hleft, hu, ← hlogs, List.take_eq_take_min]
    have hfound : KeyedStore.Represents asBytes (fun _ => asBytes) (replay (u.data.logs name)) (stored left name) := by
      rw [← htake]
      exact shows_start left name
    exact (hshows name).unique (fun _ => embeds_text.value_inverse.injective) hfound

theorem Lives.durable {handler : List ℕ → Request → HandlerM Returned Out (Answer Adapter)}
    (hkeeps : ∀ schedule req, Keeps (handler schedule req))
    (hnamed : ∀ schedule req, Disciplined (@Serve Own Returned False) Named Named (handler schedule req) none)
    (hforms : ∀ schedule req, Form ι limit req (handler schedule req)) {lives : List (Life ι Returned Out Adapter)}
    (h : Lives handler texts lives left) (name : String) : Durable limit texts lives left name := by
  induction h with
  | nil => exact ⟨[],.nil,trivial,rfl⟩
  | @snoc lives found left _ l hrun hopen hcrash ih =>
    obtain ⟨cuts,hcuts,hlegal,hfound⟩ := ih
    have hsound := sound_of_run (fun i => hkeeps _ _) (fun i => hnamed _ _) hrun hopen
    obtain ⟨kept,hremembers,hlegal',hleft⟩ := hsound.remembers (fun i => hforms _ _) hcrash name
    refine ⟨cuts ++ [kept],List.rel_append hcuts (.cons hremembers .nil),?_,?_⟩
    · rw [List.flatMap_append, about_append, legal_append]
      exact ⟨hlegal,by simpa using hlegal'.about hfound.symm⟩
    · rw [List.flatMap_append, about_append, outcome_append, ← hleft]
      simpa using (outcome_about hfound.symm).symm

end Lives

end SlatedbCloudflare.Instance

namespace SlatedbCloudflare
open Programs Locks ObjectStore Utf8 Instance Histories

/-- Through any crashes a database of either service stays one key-value store: each crash
loses at most the last writes to it, and none that a request was told is safe. -/
theorem services_durable (L : DoCache.LocalCacheHead) {ι : Type} [DecidableEq ι]
    (texts : String → List (Write String String)) :
    (∀ (lives : List (Life ι _ _ _)) left, Lives (SlateDbObject.handleJoined (L := L)) texts lives left →
      ∀ name, Durable SlateDbObject.scanLimit texts lives left name) ∧
    (∀ (lives : List (Life ι _ _ _)) left, Lives AppState.handleJoined texts lives left →
      ∀ name, Durable AppState.scanLimit texts lives left name) := by
  constructor
  · intro lives left h
    apply h.durable
    · exact fun schedule req => (SlateDbObject.handleJoined_shape schedule req).keeps SlateDbObject.openDb_opening
    · exact fun schedule req => (SlateDbObject.handleJoined_shape schedule req).named SlateDbObject.openDb_opening
    · exact fun schedule req => SlateDbObject.handleJoined_form schedule req
  · intro lives left h
    apply h.durable
    · exact fun schedule req => (AppState.handleJoined_shape schedule req).keeps AppState.openDatabase_opening
    · exact fun schedule req => (AppState.handleJoined_shape schedule req).named AppState.openDatabase_opening
    · exact fun schedule req => AppState.handleJoined_form schedule req

def leftStored (name : String) : List (Write String String) := if name = "tenant" then [("key",some "value")] else []

theorem crash_stored : Crash (filled "tenant" "key" "value").data leftStored := by
  intro name
  by_cases hname : name = "tenant"
  · subst hname
    refine ⟨1,?_,?_⟩
    · simp [filled, fresh, World.start, Data.opening, Data.write, Data.sync]
    · simp [filled, fresh, World.start, Data.opening, Data.write, Data.sync, leftStored, textWrite]
  · refine ⟨0,?_,?_⟩
    · simp [filled, fresh, World.start, Data.opening, Data.write, Data.sync, hname]
    · simp [leftStored, hname]

/-- A put that was answered is found after a crash. -/
theorem services_durable_storing :
    (∃ (lives : List (Life Bool _ _ _)) (left : String → List (Write String String)),
      Lives (SlateDbObject.handleJoined (L := DoCache.LocalCacheHead.plain)) (fun _ => []) lives left ∧
      stored left "tenant" "key" = some "value" ∧
      ∀ name, Durable SlateDbObject.scanLimit (fun _ => []) lives left name) ∧
    (∃ (lives : List (Life Bool _ _ _)) (left : String → List (Write String String)),
      Lives AppState.handleJoined (fun _ => []) lives left ∧
      stored left "tenant" "key" = some "value" ∧
      ∀ name, Durable AppState.scanLimit (fun _ => []) lives left name) := by
  have hfound : stored leftStored "tenant" "key" = some "value" := by decide
  obtain ⟨hobject,hprocess⟩ := services_durable DoCache.LocalCacheHead.plain (ι := Bool) (fun _ => [])
  constructor
  · obtain ⟨es,S,es',T,hfirst,hrest,hopen,_,_,hstate⟩ := object_stored valid_tenant "key" "value"
    have hlives : Lives (SlateDbObject.handleJoined (L := DoCache.LocalCacheHead.plain)) (fun _ => [])
        ([] ++ [⟨fun _ => [],storeAndFetch,es ++ es',T⟩]) leftStored :=
      .snoc .nil _ (hfirst.trans hrest) hopen (hstate ▸ crash_stored)
    exact ⟨_,_,hlives,hfound,hobject _ _ hlives⟩
  · obtain ⟨es,S,es',T,hfirst,hrest,hopen,_,_,hstate⟩ := process_stored valid_tenant "key" "value"
    have hlives : Lives AppState.handleJoined (fun _ => []) ([] ++ [⟨fun _ => [],storeAndFetch,es ++ es',T⟩]) leftStored :=
      .snoc .nil _ (hfirst.trans hrest) hopen (hstate ▸ crash_stored)
    exact ⟨_,_,hlives,hfound,hprocess _ _ hlives⟩

end SlatedbCloudflare
