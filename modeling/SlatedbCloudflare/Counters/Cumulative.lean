import SlatedbCloudflare.Container.BindingStore
import SlatedbCloudflare.Instance.Meters

/-! # Whether the adapter counters of statistics are cumulative

The object has one set of counters for its life. The process gives each database
that it opens a set of its own, and reports those of the database in the slot.
-/
namespace SlatedbCloudflare
open Programs Locks Counting Recording Instance

namespace SlateDbObject
variable {L : DoCache.LocalCacheHead}

def meter : Meter (Returned (L := L)) Perf.Increment Perf.PerfCounter where
  movable _ _ := True
  counted o := o
  reads
    | n, .own .snapshot, x => x = n
    | _, _, _ => True

def value (adapter : PerfSnapshot) (counter : Perf.PerfCounter) : Option ℕ := some (adapter counter)

theorem stats_snapshot {name : String} {tr : Replies (Returned (L := L))} {os : List Perf.Increment}
    {status : StatusResponse PerfSnapshot}
    (h : Returns (route name .stats) tr os (.ok (.status status))) :
    ⟨.act (.own .snapshot),status.adapter⟩ ∈ tr := by
  obtain ⟨read,tr₁,tr₂,os₁,os₂,rfl,_,_,h₂⟩ := h.of_bind_ok
  rw [SlateDbObject.status, free_bind] at h₂
  obtain ⟨populated,tr₃,tr₄,os₃,os₄,rfl,_,_,h₄⟩ := h₂.of_bind_ok
  obtain ⟨size,tr₅,rfl,h₅⟩ := h₄.of_call
  obtain ⟨adapter,tr₆,rfl,h₆⟩ := h₅.of_call
  obtain ⟨_,_,hstatus⟩ := h₆.of_ok
  cases hstatus
  simp

theorem reports_between {p : Served Perf.PerfCounter PerfSnapshot} {a : PerfSnapshot} (ha : p.Reports a)
    (hp : (meter (L := L)).Performs p.before (handle p.req) p.outcome p.after) (c : Perf.PerfCounter) :
    p.before.counts c ≤ a c ∧ a c ≤ p.after.counts c := by
  obtain ⟨⟨name,call⟩,outcome,before,after⟩ := p
  obtain ⟨rfl,status,rfl,rfl⟩ := ha
  obtain ⟨tr,os,hr,_,hreads⟩ := Meter.returns hp
  by_cases hname : ValidDatabaseName name
  · rw [handle, if_neg (not_not_intro hname)] at hr
    obtain ⟨n,hn,hread⟩ := hreads _ _ (stats_snapshot hr)
    rw [show status.adapter = n from hread]
    exact hn c
  · rw [handle, if_pos hname] at hr
    exact hr.err_ne_ok.elim

theorem reports_le {log : List (Served Perf.PerfCounter PerfSnapshot)} {s : Metered Perf.PerfCounter}
    (h : (meter (L := L)).Session handle log s) {p : Served Perf.PerfCounter PerfSnapshot} (hp : p ∈ log)
    {a : PerfSnapshot} (ha : p.Reports a) (c : Perf.PerfCounter) : a c ≤ s.counts c := by
  induction h with
  | nil => cases hp
  | idle _ hn ih => exact (ih hp).trans (hn.le c)
  | snoc q _ hq ih =>
    rcases List.mem_append.mp hp with hp | hp
    · exact (ih hp).trans (Meter.grown hq c)
    · rw [List.mem_singleton] at hp
      subst hp
      exact (reports_between ha hq c).2

theorem cumulative {log : List (Served Perf.PerfCounter PerfSnapshot)} {s : Metered Perf.PerfCounter}
    (h : (meter (L := L)).Session handle log s) : Cumulative value log := by
  intro first p between q last hlog a b ha hb c v hv
  cases hv
  have hsplit : log = (first ++ p :: between) ++ q :: last := by simpa using hlog
  obtain ⟨hbefore,hq⟩ := h.upTo hsplit
  exact ⟨b c,rfl,(reports_le hbefore (by simp) ha c).trans (reports_between hb hq c).1⟩

end SlateDbObject

namespace AppState
open BindingStore

/-- Each opened database counts in the set of counters that it was built with. -/
def meter : Meter Returned Empty (ℕ × Counter) where
  movable s c := c.1 < s.opened.length
  counted := nofun
  reads
    | n, .own (.adapter db), x => x = snapshot fun c => n (db,c)
    | _, _, _ => True

def value (adapter : Counters) (name : String) : Option ℕ := adapter.lookup name

theorem value_snapshot (counters : Counter → ℕ) (name : String) :
    value (snapshot counters) name = (counterNames.lookup name).map counters := by
  rw [value, snapshot]
  induction counterNames with
  | nil => rfl
  | cons c names ih =>
    rw [List.map_cons, List.lookup_cons, List.lookup_cons]
    by_cases hname : name == c.1
    · simp [hname]
    · simp [hname, ih]

def slotValue (s : Metered (ℕ × Counter)) (name : String) : Option ℕ :=
  s.slot.active.bind fun a => value (snapshot fun c => s.counts (a.db,c)) name

/-- Every counter of the report stands in the slot with a value at least as large. -/
def Held (a : Counters) (s : Metered (ℕ × Counter)) : Prop :=
  ∀ c v, value a c = some v → ∃ w, slotValue s c = some w ∧ v ≤ w

theorem slotValue_mono {s t : Metered (ℕ × Counter)} (hslot : t.slot = s.slot)
    (hgrown : ∀ c, s.counts c ≤ t.counts c) {name : String} {v : ℕ} (h : slotValue s name = some v) :
    ∃ w, slotValue t name = some w ∧ v ≤ w := by
  rw [slotValue] at h ⊢
  rw [hslot]
  cases hactive : s.slot.active with
  | none => simp [hactive] at h
  | some a =>
    simp only [hactive, Option.bind_some, value_snapshot] at h ⊢
    obtain ⟨c,hc,rfl⟩ := Option.map_eq_some_iff.mp h
    exact ⟨_,by rw [hc]; rfl,hgrown (a.db,c)⟩

theorem Held.grow {a : Counters} {s t : Metered (ℕ × Counter)} (h : Held a s) (hslot : t.slot = s.slot)
    (hgrown : ∀ c, s.counts c ≤ t.counts c) : Held a t := by
  intro c v hv
  obtain ⟨w,hw,hvw⟩ := h c v hv
  obtain ⟨w',hw',hww'⟩ := slotValue_mono hslot hgrown hw
  exact ⟨w',hw',hvw.trans hww'⟩

/-- Statistics read the slot as it is, and the counters of its database. -/
theorem stats_adapter {name : String} {tr : Replies Returned} {os : List Empty}
    {status : StatusResponse Counters} (h : Returns (withLock activeMetrics >>= fun read =>
      free (AppState.status name read)) tr os (.ok (.status status))) {s t : State}
    (hc : Chain (Alone Instance.Does ()) (s,none) tr (t,none)) :
    (s.active = none → status.adapter = []) ∧
      ∀ a, s.active = some a → ⟨.act (.own (.adapter a.db)),status.adapter⟩ ∈ tr := by
  have hrest : ∀ {read tr os}, Returns (free (AppState.status name read)) tr os (.ok (.status status)) →
      status.adapter = read.2.1 := by
    intro read tr os h
    obtain ⟨size,tr',_,h₁⟩ := h.of_call
    rcases size with e | n
    · exact (Returns.err_ne_ok h₁).elim
    · obtain ⟨_,_,hstatus⟩ := Returns.of_ok h₁
      cases hstatus
      rfl
  obtain ⟨x₁,tr₁,rfl,h₁⟩ := h.of_call
  obtain ⟨⟨s₁,g₁⟩,hs₁,hc₁⟩ := hc.of_cons
  obtain ⟨_,rfl,rfl⟩ := hs₁
  obtain ⟨x₂,tr₂,rfl,h₂⟩ := h₁.of_call
  obtain ⟨⟨s₂,g₂⟩,hs₂,_⟩ := hc₁.of_cons
  obtain ⟨⟨rfl,rfl⟩,_⟩ := hs₂
  cases hactive : s₂.active with
  | none =>
    rw [hactive] at h₂
    obtain ⟨x₃,tr₃,_,h₃⟩ := h₂.of_call
    exact ⟨fun _ => hrest h₃,nofun⟩
  | some current =>
    rw [hactive] at h₂
    obtain ⟨adapter,tr₃,rfl,h₃⟩ := h₂.of_call
    obtain ⟨metrics,tr₄,rfl,h₄⟩ := h₃.of_call
    obtain ⟨x₅,tr₅,rfl,h₅⟩ := h₄.of_call
    refine ⟨nofun,fun a ha => ?_⟩
    cases ha
    rw [hrest h₅]
    simp

/-- A report gives what the slot had, at some moment of the request. -/
theorem reports_slot {p : Served (ℕ × Counter) Counters} {a : Counters} (ha : p.Reports a)
    (hp : meter.Performs p.before (handle p.req) p.outcome p.after) :
    ValidDatabaseName p.req.database ∧ p.after.slot = p.before.slot ∧ ∃ n : ℕ × Counter → ℕ,
      (∀ c, p.before.counts c ≤ n c ∧ n c ≤ p.after.counts c) ∧
        ∀ name, value a name = slotValue ⟨p.before.slot,n⟩ name := by
  obtain ⟨⟨name,call⟩,outcome,before,after⟩ := p
  obtain ⟨rfl,status,rfl,rfl⟩ := ha
  obtain ⟨tr,os,hr,hc,hreads⟩ := Meter.returns hp
  have hshape := handle_shape ⟨name,.ok .stats⟩
  by_cases hname : ValidDatabaseName name
  swap
  · obtain ⟨e,he⟩ := handle_invalid hname (.ok .stats)
    rw [he] at hr
    obtain ⟨_,_,hfail⟩ := hr.of_err
    cases hfail
  rw [slotUse, if_neg (not_not_intro hname)] at hshape
  have hslot : after.slot = before.slot := quiet_chain (hr.asks hshape.quiet) hc
  have hstats : handle ⟨name,.ok .stats⟩ = withLock activeMetrics >>= fun read =>
      free (AppState.status name read) := by
    change (validateDatabaseName name >>= _) = _
    rw [validateDatabaseName, if_pos hname]
    rfl
  rw [hstats] at hr
  obtain ⟨hnone,hsome⟩ := stats_adapter hr hc
  cases hactive : before.slot.active with
  | none =>
    refine ⟨hname,hslot,before.counts,fun c => ⟨le_rfl,Meter.grown hp c⟩,fun name => ?_⟩
    simp [hnone hactive, value, slotValue, hactive]
  | some current =>
    obtain ⟨n,hn,hread⟩ := hreads _ _ (hsome current hactive)
    refine ⟨hname,hslot,n,hn,fun name => ?_⟩
    rw [show status.adapter = snapshot fun c => n (current.db,c) from hread]
    simp [slotValue, hactive]

def AsksStats (req : Request) : Prop := ValidDatabaseName req.database ∧ req.call = .ok .stats

/-- The request may put a database in the slot: any that uses one, and those that replace it. -/
def Opens (req : Request) : Prop := slotUse .replaces req ≠ .spares

/-- The request closes the database in the slot and opens another: `reopen` and `cache/clear`. -/
def Replaces (req : Request) : Prop := slotUse .replaces req = .replaces

/-- A database is replaced between two requests for statistics. -/
def Resets (requests : List Request) : Prop :=
  ∃ first p between q last, requests = first ++ p :: (between ++ q :: last) ∧ AsksStats p ∧ AsksStats q ∧
    (∃ r ∈ first, Opens r) ∧ ∃ r ∈ between, Replaces r

theorem unopened {log : List (Served (ℕ × Counter) Counters)} {s : Metered (ℕ × Counter)}
    (h : meter.Session handle log s) (hlog : ∀ p ∈ log, ¬ Opens p.req) : s.slot.active = none := by
  induction h with
  | nil => rfl
  | idle _ _ ih => exact ih hlog
  | snoc q _ hq ih =>
    obtain ⟨hrest,hlast⟩ := List.forall_mem_append.mp hlog
    obtain ⟨tr,os,hr,hc,_⟩ := Meter.returns hq
    have hshape := handle_shape q.req
    rw [not_not.mp (hlast q (List.mem_singleton.mpr rfl))] at hshape
    rw [show q.after.slot = q.before.slot from quiet_chain (hr.asks hshape.quiet) hc]
    exact ih hrest

theorem held_of_kept {log : List (Served (ℕ × Counter) Counters)} {s : Metered (ℕ × Counter)}
    (h : meter.Session handle log s) {first between : List (Served (ℕ × Counter) Counters)}
    {p : Served (ℕ × Counter) Counters} (hlog : log = first ++ p :: between) {a : Counters} (ha : p.Reports a)
    (hkept : ∀ r ∈ between, ¬ Replaces r.req) : Held a s := by
  induction h generalizing between with
  | nil => simp at hlog
  | idle _ hn ih => exact (ih hlog hkept).grow rfl hn.le
  | @snoc init q h hq ih =>
    rcases List.eq_nil_or_concat between with rfl | ⟨rest,q',rfl⟩
    · obtain ⟨rfl,hqp⟩ := List.append_inj' hlog rfl
      cases hqp
      obtain ⟨_,hslot,n,hn,hvalue⟩ := reports_slot ha hq
      intro c v hv
      rw [hvalue] at hv
      exact slotValue_mono (s := ⟨p.before.slot,n⟩) hslot (fun c => (hn c).2) hv
    · have hlog' : init ++ [q] = (first ++ p :: rest) ++ [q'] := by
        rw [hlog, List.concat_eq_append, List.append_assoc, List.cons_append]
      obtain ⟨hinit,hqq⟩ := List.append_inj' hlog' rfl
      cases hqq
      rw [List.concat_eq_append] at hkept
      obtain ⟨hrest,hlast⟩ := List.forall_mem_append.mp hkept
      have hbefore := ih hinit hrest
      obtain ⟨tr,os,hr,hc,_⟩ := Meter.returns hq
      intro c v hv
      obtain ⟨w,hw,hvw⟩ := hbefore c v hv
      obtain ⟨current,hactive,_⟩ := Option.bind_eq_some_iff.mp hw
      have huse := hlast q (List.mem_singleton.mpr rfl)
      have hslot := (handle_shape q.req).keeps_active huse hr hactive hc
      obtain ⟨w',hw',hww'⟩ := slotValue_mono hslot (Meter.grown hq) hw
      exact ⟨w',hw',hvw.trans hww'⟩

theorem cumulative_of_kept {log : List (Served (ℕ × Counter) Counters)} {s : Metered (ℕ × Counter)}
    (h : meter.Session handle log s) (hlog : ¬ Resets (log.map Served.req)) : Cumulative value log := by
  intro first p between q last hsplit a b ha hb c v hv
  have hsplit' : log = (first ++ p :: between) ++ q :: last := by simpa using hsplit
  obtain ⟨hbefore,hq⟩ := h.upTo hsplit'
  obtain ⟨hfirst,hp⟩ := hbefore.upTo rfl
  obtain ⟨hpname,_,n,_,hpvalue⟩ := reports_slot ha hp
  obtain ⟨hqname,_,m,hm,hqvalue⟩ := reports_slot hb hq
  by_cases hopened : ∃ r ∈ first, Opens r.req
  · have hkept : ∀ r ∈ between, ¬ Replaces r.req := by
      intro r hr hreplaces
      obtain ⟨o,ho,hopens⟩ := hopened
      apply hlog
      refine ⟨first.map Served.req,p.req,between.map Served.req,q.req,last.map Served.req,by simp [hsplit],
        ⟨hpname,ha.1⟩,⟨hqname,hb.1⟩,⟨o.req,List.mem_map_of_mem ho,hopens⟩,r.req,List.mem_map_of_mem hr,hreplaces⟩
    obtain ⟨w,hw,hvw⟩ := held_of_kept hbefore rfl ha hkept c v hv
    obtain ⟨w',hw',hww'⟩ := slotValue_mono (s := q.before) (t := ⟨q.before.slot,m⟩) rfl (fun c => (hm c).1) hw
    exact ⟨w',by rw [hqvalue]; exact hw',hvw.trans hww'⟩
  · have hnone := unopened hfirst fun r hr ho => hopened ⟨r,hr,ho⟩
    rw [hpvalue] at hv
    simp [slotValue, hnone] at hv

end AppState

end SlatedbCloudflare
