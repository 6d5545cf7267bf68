import SlatedbCloudflare.Instance.OneWriter

/-! # One database name per instance

Sessions of requests with validated names, one after the other, each with any
replies the instance's state allows.
-/
namespace SlatedbCloudflare.Instance
open Programs Locks ObjectStore

section Sessions
variable {Own : Type} {Returned : Own → Type} {Out α : Type}

structure Handled (Returned : Own → Type) (Out α : Type) where
  req : Request
  replies : Replies Returned
  outputs : List Out
  outcome : Except AppError α
  before : State
  after : State

inductive Session (handler : Request → HandlerM Returned Out α) : List (Handled Returned Out α) → State → Prop
  | nil : Session handler [] State.empty
  | snoc {log : List (Handled Returned Out α)} (p : Handled Returned Out α)
      (h : Session handler log p.before) (hname : ValidDatabaseName p.req.database)
      (hr : Returns (handler p.req) p.replies p.outputs p.outcome)
      (hc : Chain (Alone Does ()) (p.before,none) p.replies (p.after,none)) :
      Session handler (log ++ [p]) p.after

def Handled.Foreign (p : Handled Returned Out α) (a : ActiveDb) : Prop :=
  p.before.active = some a ∧ ∃ n, p.before.opened[a.db]? = some n ∧ n ≠ p.req.database

/-- The request is rejected, so that it reports nothing, and leaves `a` active and unclosed. -/
structure Handled.Respects (p : Handled Returned Out α) (a : ActiveDb) : Prop where
  rejected : ∃ e, p.outcome = .error e
  unchanged : p.after.active = p.before.active
  unclosed : ∀ x ∈ p.replies, x.1 ≠ .act (.close a.db)

/-- Every request that names another database than the active one respects it. -/
def OneName (log : List (Handled Returned Out α)) : Prop :=
  ∀ p ∈ log, ∀ a, p.Foreign a → p.Respects a

variable {p : Handled Returned Out α} {a : ActiveDb}

theorem respects_iff_of_quiet {q : HandlerM Returned Out α} (hq : q.Asks Quiet)
    (hr : Returns q p.replies p.outputs p.outcome)
    (hc : Chain (Alone Does ()) (p.before,none) p.replies (p.after,none)) :
    p.Respects a ↔ ∃ e, p.outcome = .error e := by
  refine ⟨fun h => h.rejected,fun he => ⟨he,?_,fun x hx heq => ?_⟩⟩
  · rw [show p.after = p.before from quiet_chain (hr.asks hq) hc]
  · have hquiet := hr.asks hq x hx
    rw [heq] at hquiet
    exact hquiet

theorem respects_of_err {e : AppError}
    (hr : Returns (.err e : HandlerM Returned Out α) p.replies p.outputs p.outcome)
    (hc : Chain (Alone Does ()) (p.before,none) p.replies (p.after,none)) : p.Respects a := by
  have hquiet : (.err e : HandlerM Returned Out α).Asks Quiet := trivial
  exact (respects_iff_of_quiet hquiet hr hc).mpr ⟨e,hr.of_err.2.2⟩

/-- A request with another name gets no further than the check of the name. -/
theorem respects_of_guarded {mixed : AppError} {openDb : String → OpM Returned Out ActiveDb}
    {name : String} {f : ℕ → HandlerM Returned Out α} (ha : p.before.active = some a)
    (hname : a.name ≠ name)
    (hr : Returns (withLock (currentOr mixed openDb name) >>= f) p.replies p.outputs p.outcome)
    (hc : Chain (Alone Does ()) (p.before,none) p.replies (p.after,none)) : p.Respects a := by
  obtain ⟨x₁,tr₁,htr₁,h₁⟩ := hr.of_call
  rw [htr₁] at hc
  obtain ⟨⟨s₁,g₁⟩,hs₁,hc₁⟩ := hc.of_cons
  obtain ⟨_,rfl,rfl⟩ := hs₁
  obtain ⟨x₂,tr₂,rfl,h₂⟩ := h₁.of_call
  obtain ⟨⟨s₂,g₂⟩,hs₂,hc₂⟩ := hc₁.of_cons
  obtain ⟨⟨rfl,rfl⟩,rfl⟩ := hs₂
  have hrejected : Returns (.call .unlock fun _ => .err mixed : HandlerM Returned Out α)
      tr₂ p.outputs p.outcome := by
    beta_reduce at h₂
    rw [ha] at h₂
    change Returns (release (if a.name ≠ name then .err mixed else pure a.db) >>= f) _ _ _ at h₂
    rw [if_pos hname] at h₂
    exact h₂
  obtain ⟨x₃,tr₃,rfl,h₃⟩ := hrejected.of_call
  obtain ⟨rfl,_,houtcome⟩ := h₃.of_err
  obtain ⟨⟨s₃,g₃⟩,hs₃,hc₃⟩ := hc₂.of_cons
  obtain ⟨_,rfl,rfl⟩ := hs₃
  have hafter := hc₃.of_nil
  refine ⟨⟨_,houtcome⟩,?_,?_⟩
  · rw [(Prod.mk.inj hafter).1]
  · rw [htr₁]
    simp

/-- Taking the active database leads to closing it. -/
theorem not_respects_of_replace {message : String → AppError} {between : OpM Returned Out Unit}
    {openDb : String → OpM Returned Out ActiveDb} {name : String} {f : Unit → HandlerM Returned Out α}
    (ha : p.before.active = some a)
    (hr : Returns (withLock (replace message between openDb name) >>= f) p.replies p.outputs p.outcome)
    (hc : Chain (Alone Does ()) (p.before,none) p.replies (p.after,none)) : ¬ p.Respects a := by
  obtain ⟨x₁,tr₁,htr₁,h₁⟩ := hr.of_call
  rw [htr₁] at hc
  obtain ⟨⟨s₁,g₁⟩,hs₁,hc₁⟩ := hc.of_cons
  obtain ⟨_,rfl,rfl⟩ := hs₁
  obtain ⟨x₂,tr₂,rfl,h₂⟩ := h₁.of_call
  obtain ⟨⟨s₂,g₂⟩,hs₂,_⟩ := hc₁.of_cons
  obtain ⟨⟨rfl,rfl⟩,rfl⟩ := hs₂
  beta_reduce at h₂
  rw [ha] at h₂
  obtain ⟨x₃,tr₃,rfl,_⟩ := h₂.of_call
  intro hrespects
  refine hrespects.unclosed ⟨.act (.close a.db),x₃⟩ ?_ rfl
  rw [htr₁]
  simp

theorem Handled.Foreign.name_ne {cautious : Prop} (hf : p.Foreign a) (hs : Settled cautious p.before) :
    a.name ≠ p.req.database := by
  obtain ⟨ha,n,hn,hne⟩ := hf
  obtain ⟨_,_,hopened⟩ := hs.kept a ha
  rw [hopened] at hn
  cases hn
  exact hne

theorem serve_false : @Serve Own Returned False = Does := by
  funext s r x t
  simp [Serve]

theorem Session.settled {handler : Request → HandlerM Returned Out α} (hk : ∀ req, Keeps (handler req))
    {log : List (Handled Returned Out α)} {s : State} (h : Session handler log s) :
    Settled False s ∧ ∀ p ∈ log, Settled False p.before := by
  induction h with
  | nil => exact ⟨.empty,nofun⟩
  | snoc p _ _ hr hc ih =>
    obtain ⟨hbefore,hlog⟩ := ih
    have hkeeps := hk p.req False
    rw [serve_false] at hkeeps
    have hafter := hkeeps.alone (fun _ hs => hs.passing) hr hbefore hc
    refine ⟨hafter,fun q hq => ?_⟩
    rcases List.mem_append.mp hq with hq | hq
    · exact hlog q hq
    · rw [List.mem_singleton] at hq
      subst hq
      exact hbefore

theorem Session.oneName_iff {handler : Request → HandlerM Returned Out α}
    (hk : ∀ req, Keeps (handler req)) {C : Handled Returned Out α → Prop}
    (hC : ∀ p a, Settled False p.before → ValidDatabaseName p.req.database →
      Returns (handler p.req) p.replies p.outputs p.outcome →
      Chain (Alone Does ()) (p.before,none) p.replies (p.after,none) → p.Foreign a →
      (p.Respects a ↔ C p))
    {log : List (Handled Returned Out α)} {s : State} (h : Session handler log s) :
    OneName log ↔ ∀ p ∈ log, ∀ a, p.Foreign a → C p := by
  have hsettled := (h.settled hk).2
  have heach : ∀ p ∈ log, ∀ a, p.Foreign a → (p.Respects a ↔ C p) := by
    clear hk
    induction h with
    | nil => nofun
    | snoc q _ hname hr hc ih =>
      intro p hp a hf
      have hbefore := hsettled p hp
      rcases List.mem_append.mp hp with hp | hp
      · exact ih (fun p hp => hsettled p (List.mem_append_left _ hp)) p hp a hf
      · rw [List.mem_singleton] at hp
        subst hp
        exact hC p a hbefore hname hr hc hf
  constructor
  · intro hone p hp a hf
    exact (heach p hp a hf).mp (hone p hp a hf)
  · intro hlog p hp a hf
    exact (heach p hp a hf).mpr (hlog p hp a hf)

end Sessions

end SlatedbCloudflare.Instance

namespace SlatedbCloudflare
open Programs Locks ObjectStore Utf8 Instance

theorem not_ok {β : Type} {e : String} : ¬ ∃ v : β, Except.error e = .ok v := by
  rintro ⟨v,hv⟩
  cases hv

namespace SlateDbObject
variable {L : DoCache.LocalCacheHead}

def Answered : (r : Locked (Op (Own L))) × Locked.Reply (Reply Returned) r → Prop
  | ⟨.act (.own (.storage _)),x⟩ => ∃ v, x = .ok v
  | _ => True

/-- The request goes through `database`, or its storage call fails. -/
def Withheld (p : Handled (Returned (L := L)) Perf.Increment (Answer PerfSnapshot)) : Prop :=
  match p.req.call with
  | .ok .reopen => False
  | .ok .clearCache | .ok .stats => ∃ x ∈ p.replies, ¬ Answered x
  | _ => True

theorem clearCache_strict (name : String) : (route (L := L) name .clearCache).Strict Answered := by
  rintro (e | _)
  · exact ⟨fun h => (not_ok h).elim,fun _ => trivial⟩
  · exact ⟨fun _ => trivial,fun h => absurd ⟨(),rfl⟩ h⟩

theorem stats_strict (name : String) : (route (L := L) name .stats).Strict Answered := by
  have hstatus : ∀ read, (free (status (L := L) read)).Strict Answered := by
    rintro read (e | n)
    · exact ⟨fun h => (not_ok h).elim,fun _ => trivial⟩
    · refine ⟨fun _ => ?_,fun h => absurd ⟨n,rfl⟩ h⟩
      exact .of_good (fun _ => trivial) fun _ => .of_good (fun _ => trivial) fun _ => trivial
  refine .of_good (fun _ => trivial) fun _ => .of_good (fun _ => trivial) fun active => ?_
  cases active with
  | none => exact .of_good (fun _ => trivial) fun _ => hstatus _
  | some current =>
    exact .of_good (fun _ => trivial) fun _ => .of_good (fun _ => trivial) fun _ => hstatus _

theorem respects_iff (p : Handled (Returned (L := L)) Perf.Increment (Answer PerfSnapshot)) (a : ActiveDb)
    (hs : Settled False p.before) (hname : ValidDatabaseName p.req.database)
    (hr : Returns (handle p.req) p.replies p.outputs p.outcome)
    (hc : Chain (Alone Does ()) (p.before,none) p.replies (p.after,none)) (hf : p.Foreign a) :
    p.Respects a ↔ Withheld p := by
  have hne := hf.name_ne hs
  rw [handle, if_neg (not_not_intro hname)] at hr
  rw [Withheld]
  cases hcall : p.req.call with
  | error rejection =>
    rw [hcall] at hr
    exact ⟨fun _ => trivial,fun _ => respects_of_err hr hc⟩
  | ok call =>
    rw [hcall] at hr
    have hguarded : ∀ {f}, Returns (database p.req.database >>= f) p.replies p.outputs p.outcome →
        (p.Respects a ↔ True) :=
      fun h => ⟨fun _ => trivial,fun _ => respects_of_guarded hf.1 hne h hc⟩
    cases call with
    | put key value => exact hguarded hr
    | get key => exact hguarded hr
    | delete key => exact hguarded hr
    | scan text limit => exact hguarded hr
    | flush => exact hguarded hr
    | benchmarkBatch value clients =>
      change Returns (route p.req.database (.benchmarkBatch value clients)) _ _ _ at hr
      by_cases hvalid : ValidBatch clients
      · rw [route, if_neg (not_not_intro hvalid)] at hr
        exact hguarded hr
      · rw [route, if_pos hvalid] at hr
        exact ⟨fun _ => trivial,fun _ => respects_of_err hr hc⟩
    | reopen => exact ⟨not_respects_of_replace hf.1 hr hc,False.elim⟩
    | clearCache =>
      have hquiet : (route (L := L) p.req.database .clearCache).Asks Quiet :=
        asks_free ((onStorage_harmless _).bind fun _ => trivial)
      exact (respects_iff_of_quiet hquiet hr hc).trans (hr.strict_error (clearCache_strict _))
    | stats =>
      have hquiet : (route (L := L) p.req.database .stats).Asks Quiet :=
        (asks_withLock activeMetrics_harmless).bind fun read => asks_free (status_harmless read)
      exact (respects_iff_of_quiet hquiet hr hc).trans (hr.strict_error (stats_strict _))

end SlateDbObject

namespace AppState

def Answered : (r : Locked (Op Own)) × Locked.Reply (Reply Returned) r → Prop
  | ⟨.act (.own (.directorySize _)),x⟩ => ∃ v, x = .ok v
  | _ => True

/-- The request goes through `database`, or the cache directory cannot be measured. -/
def Withheld (p : Handled Returned Empty (Answer Counters)) : Prop :=
  match p.req.call with
  | .ok .reopen | .ok .clearCache => False
  | .ok .stats => ∃ x ∈ p.replies, ¬ Answered x
  | _ => True

def validStats (name : String) : RouteM (Answer Counters) := do
  let read ← withLock activeMetrics
  free (status name read)

theorem stats_strict (name : String) : (validStats name).Strict Answered := by
  have hstatus : ∀ read, (free (status name read)).Strict Answered := by
    rintro read (e | n)
    · exact ⟨fun h => (not_ok h).elim,fun _ => trivial⟩
    · exact ⟨fun _ => trivial,fun h => absurd ⟨n,rfl⟩ h⟩
  refine .of_good (fun _ => trivial) fun _ => .of_good (fun _ => trivial) fun active => ?_
  cases active with
  | none => exact .of_good (fun _ => trivial) fun _ => hstatus _
  | some current =>
    refine .of_good (fun _ => trivial) fun _ => .of_good (fun _ => trivial) fun _ => ?_
    exact .of_good (fun _ => trivial) fun _ => hstatus _

theorem respects_iff (p : Handled Returned Empty (Answer Counters)) (a : ActiveDb)
    (hs : Settled False p.before) (hname : ValidDatabaseName p.req.database)
    (hr : Returns (handle p.req) p.replies p.outputs p.outcome)
    (hc : Chain (Alone Does ()) (p.before,none) p.replies (p.after,none)) (hf : p.Foreign a) :
    p.Respects a ↔ Withheld p := by
  have hne := hf.name_ne hs
  have hcheck : validateDatabaseName p.req.database = pure () := if_pos hname
  rw [handle] at hr
  rw [Withheld]
  cases hcall : p.req.call with
  | error rejection =>
    rw [hcall] at hr
    exact ⟨fun _ => trivial,fun _ => respects_of_err hr hc⟩
  | ok call =>
    rw [hcall] at hr
    have hguarded : ∀ {f}, Returns (database p.req.database >>= f) p.replies p.outputs p.outcome →
        (p.Respects a ↔ True) := by
      intro f h
      rw [database, hcheck] at h
      exact ⟨fun _ => trivial,fun _ => respects_of_guarded hf.1 hne h hc⟩
    cases call with
    | put key value => exact hguarded hr
    | get key => exact hguarded hr
    | delete key => exact hguarded hr
    | scan text limit => exact hguarded hr
    | flush => exact hguarded hr
    | benchmarkBatch value clients =>
      change Returns (benchmarkBatch p.req.database value clients) _ _ _ at hr
      by_cases hvalid : ValidBatch clients
      · rw [benchmarkBatch, if_neg (not_not_intro hvalid)] at hr
        exact hguarded hr
      · rw [benchmarkBatch, if_pos hvalid] at hr
        exact ⟨fun _ => trivial,fun _ => respects_of_err hr hc⟩
    | reopen =>
      change Returns (reopen p.req.database) _ _ _ at hr
      rw [reopen, hcheck] at hr
      exact ⟨not_respects_of_replace hf.1 hr hc,False.elim⟩
    | clearCache =>
      change Returns (clearCache p.req.database) _ _ _ at hr
      rw [clearCache, hcheck] at hr
      exact ⟨not_respects_of_replace hf.1 hr hc,False.elim⟩
    | stats =>
      change Returns (stats p.req.database) _ _ _ at hr
      rw [stats, hcheck] at hr
      have hquiet : (validStats p.req.database).Asks Quiet :=
        (asks_withLock activeMetrics_harmless).bind fun read => asks_free (status_harmless _ read)
      exact (respects_iff_of_quiet hquiet hr hc).trans (hr.strict_error (stats_strict _))

end AppState

/-- In every session of either service, requests for another database than the
active one respect it exactly if each of them goes through `database` or fails to
read what it reports. -/
theorem one_name_iff (L : DoCache.LocalCacheHead) :
    (∀ log s, Session (SlateDbObject.handle (L := L)) log s →
      (OneName log ↔ ∀ p ∈ log, ∀ a, p.Foreign a → SlateDbObject.Withheld p)) ∧
    (∀ log s, Session AppState.handle log s →
      (OneName log ↔ ∀ p ∈ log, ∀ a, p.Foreign a → AppState.Withheld p)) :=
  ⟨fun _ _ h => h.oneName_iff SlateDbObject.handle_keeps SlateDbObject.respects_iff,
    fun _ _ h => h.oneName_iff AppState.handle_keeps AppState.respects_iff⟩

section TwoNames
variable {Own : Type} {Returned : Own → Type} {Out α : Type}

def replacing (own : Own) (x : Returned own) : Replies Returned :=
  [⟨.lock,()⟩,⟨.act .takeActive,some ⟨"first",0⟩⟩,⟨.act (.close 0),.ok ()⟩,⟨.act (.own own),x⟩,
    ⟨.act (.build "second"),.ok 1⟩,⟨.act (.setActive ⟨"second",1⟩),()⟩,⟨.unlock,()⟩]

def firstOpened : State := ⟨some ⟨"first",0⟩,["first"],[],[]⟩

def secondOpened : State := ⟨some ⟨"second",1⟩,["first","second"],[0],[]⟩

theorem chain_replacing (own : Own) (x : Returned own) :
    Chain (Alone Does ()) (firstOpened,none) (replacing own x) (secondOpened,none) := by
  refine .cons (u := (firstOpened,some ())) ⟨rfl,rfl,rfl⟩ ?_
  refine .cons (u := (firstOpened.take,some ())) ⟨⟨rfl,rfl⟩,rfl⟩ ?_
  refine .cons (u := (firstOpened.take.close 0,some ())) ⟨rfl,rfl⟩ ?_
  refine .cons (u := (firstOpened.take.close 0,some ())) ⟨rfl,rfl⟩ ?_
  refine .cons (u := ((firstOpened.take.close 0).build "second",some ())) ⟨⟨rfl,rfl⟩,rfl⟩ ?_
  refine .cons (u := (secondOpened,some ())) ⟨rfl,rfl⟩ ?_
  exact .cons ⟨rfl,rfl,rfl⟩ (.nil _)

theorem session_replacing {handler : Request → HandlerM Returned Out α} {own own' : Own}
    {x : Returned own} {y : Returned own'} {a : α}
    (hfirst : Consumes (handler ⟨"first",.ok .reopen⟩) (opening "first" own x 0) [] (.ok a))
    (hsecond : Consumes (handler ⟨"second",.ok .reopen⟩) (replacing own' y) [] (.ok a)) :
    ∃ log s, Session handler log s ∧ ¬ OneName log := by
  have hname : ValidDatabaseName "first" := by decide
  have hother : ValidDatabaseName "second" := by decide
  have hne : "first" ≠ "second" := by decide
  have hopened : Session handler ([] ++ [⟨⟨"first",.ok .reopen⟩,opening "first" own x 0,[],.ok a,
      State.empty,firstOpened⟩]) firstOpened :=
    .snoc ⟨⟨"first",.ok .reopen⟩,opening "first" own x 0,[],.ok a,State.empty,firstOpened⟩ .nil
      hname hfirst (chain_opening () rfl _ _ _)
  refine ⟨_,_,.snoc ⟨⟨"second",.ok .reopen⟩,replacing own' y,[],.ok a,firstOpened,secondOpened⟩
    hopened hother hsecond (chain_replacing own' y),fun hone => ?_⟩
  have hrespects := hone _ (List.mem_append_right _ (List.mem_singleton.mpr rfl)) ⟨"first",0⟩
    ⟨rfl,"first",rfl,hne⟩
  obtain ⟨e,he⟩ := hrespects.rejected
  cases he

/-- A request to reopen a second name closes and replaces the database of the first
in either service. -/
theorem reopening_replaces_other_name :
    (∀ L : DoCache.LocalCacheHead,
      ¬ ∀ log s, Session (SlateDbObject.handle (L := L)) log s → OneName log) ∧
    ¬ ∀ log s, Session AppState.handle log s → OneName log := by
  have hfirst : ValidDatabaseName "first" := by decide
  have hsecond : ValidDatabaseName "second" := by decide
  constructor
  · intro L hlaw
    have hreplaces : Consumes (SlateDbObject.handle (L := L) ⟨"second",.ok .reopen⟩)
        (replacing (.fromStorage "second") (.ok ())) [] (.ok .done) := by
      rw [object_reopens L hsecond]
      exact .call (.call (.call (.call (.call (.call (.call (.refl _)))))))
    obtain ⟨log,s,hsession,hnot⟩ := session_replacing (object_opens L hfirst 0) hreplaces
    exact hnot (hlaw log s hsession)
  · intro hlaw
    have hreplaces : Consumes (AppState.handle ⟨"second",.ok .reopen⟩)
        (replacing (.createDirAll (AppState.cacheDir "second")) (.ok ())) [] (.ok .done) := by
      rw [process_reopens hsecond]
      exact .call (.call (.call (.call (.call (.call (.call (.refl _)))))))
    obtain ⟨log,s,hsession,hnot⟩ := session_replacing (process_opens hfirst 0) hreplaces
    exact hnot (hlaw log s hsession)

end TwoNames

end SlatedbCloudflare
