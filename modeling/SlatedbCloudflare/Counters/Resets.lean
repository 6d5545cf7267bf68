import SlatedbCloudflare.Counters.Cumulative
import SlatedbCloudflare.DurableObject.CacheRefinement

/-! # Replacing a database resets the reported counters

Every sequence of requests to the process can run so that each request which may
open or replace a database does. Such a run shows a counter that falls, unless no
database is replaced between two requests for statistics.
-/
namespace SlatedbCloudflare
open Programs Locks Counting Recording Instance

namespace AppState
open BindingStore

def unrecorded (_ : Empty) (s : Metered (ℕ × Counter)) : Metered (ℕ × Counter) := s

abbrev Runs {α : Type} (s : Metered (ℕ × Counter)) (p : ProcessM α) (r : Except AppError α)
    (t : Metered (ℕ × Counter)) : Prop := Performs meter.Does unrecorded s p r t

theorem record_eq (o : Empty) (s : Metered (ℕ × Counter)) (g : Option Unit) :
    meter.record o (s,g) = (unrecorded o s,g) := o.elim

def answer (s : Metered (ℕ × Counter)) : (r : Op Own) → Reply Returned r
  | .active => s.slot.active
  | .takeActive => s.slot.active
  | .setActive _ => ()
  | .metrics _ => []
  | .now => 0
  | .own (.createDirAll _) => .ok ()
  | .own (.removeDirAll _) => .ok ()
  | .own (.directorySize _) => .ok 0
  | .own (.adapter db) => snapshot fun c => s.counts (db,c)
  | .build _ | .close _ | .get _ _ | .put _ _ _ _ | .delete _ _ | .flush _ | .scan _ | .scanPrefix _ _
  | .next _ _ => .error "unavailable"

theorem does_answer {r : Op Own} (h : r.Harmless) (s : Metered (ℕ × Counter)) :
    meter.Does s r (answer s r) s := by
  cases r with
  | takeActive | setActive | build | close => exact h.elim
  | active => exact ⟨⟨rfl,rfl⟩,.refl _,trivial⟩
  | own r => cases r <;> exact ⟨rfl,.refl _,by trivial⟩
  | _ => exact ⟨rfl,.refl _,trivial⟩

theorem harmless_runs {α : Type} {p : ProcessM α} (hp : p.Asks Op.Harmless) (s : Metered (ℕ × Counter)) :
    ∃ r, Runs s p r s := by
  induction p with
  | ok a => exact ⟨_,.ok s a⟩
  | err e => exact ⟨_,.err s e⟩
  | emit o p ih => exact o.elim
  | call r k ih =>
    obtain ⟨r',hr'⟩ := ih (answer s r) (hp.2 _)
    exact ⟨r',.call (does_answer hp.1 s) hr'⟩

def Fresh (s t : State) : Prop :=
  t.opened.length = s.opened.length + 1 ∧ ∃ name, t.active = some ⟨name,s.opened.length⟩

theorem install_runs (name : String) (s : Metered (ℕ × Counter)) : Runs s (install openDatabase name)
    (.ok ⟨name,s.slot.opened.length⟩)
      ⟨(s.slot.build name).set ⟨name,s.slot.opened.length⟩,s.counts⟩ := by
  have hcreate : meter.Does s (.own (.createDirAll (cacheDir name))) (.ok ()) s := ⟨rfl,.refl _,trivial⟩
  have hbuild : meter.Does s (.build name) (.ok s.slot.opened.length) ⟨s.slot.build name,s.counts⟩ :=
    ⟨⟨rfl,rfl⟩,.refl _,trivial⟩
  have hset : meter.Does ⟨s.slot.build name,s.counts⟩ (.setActive ⟨name,s.slot.opened.length⟩) ()
      ⟨(s.slot.build name).set ⟨name,s.slot.opened.length⟩,s.counts⟩ := ⟨rfl,.refl _,trivial⟩
  exact .call hcreate (.call hbuild (.call hset (.ok _ _)))

theorem fresh_install (s : State) (name : String) :
    Fresh s ((s.build name).set ⟨name,s.opened.length⟩) :=
  ⟨opened_build s name,name,rfl⟩

/-- How a request may leave the slot. -/
def Next : SlotUse → State → State → Prop
  | .spares, s, t => t = s
  | .opens, s, t => if s.active = none then Fresh s t else t = s
  | .replaces, s, t => Fresh s t

theorem current_runs (name : String) (s : Metered (ℕ × Counter)) :
    ∃ r t, Runs s (currentOr twoNames openDatabase name) r t ∧ t.counts = s.counts ∧ Next .opens s.slot t.slot := by
  have hactive : meter.Does s .active s.slot.active s := ⟨⟨rfl,rfl⟩,.refl _,trivial⟩
  cases h : s.slot.active with
  | none =>
    rw [h] at hactive
    refine ⟨_,_,.call hactive ((install_runs name s).bind_ok (.ok _ _)),rfl,?_⟩
    rw [Next, if_pos h]
    exact fresh_install s.slot name
  | some current =>
    rw [h] at hactive
    have hrest : ∃ r, Runs s (if current.name ≠ name then .err twoNames else pure current.db) r s := by
      split_ifs
      · exact ⟨_,.err s _⟩
      · exact ⟨_,.ok s _⟩
    obtain ⟨r,hr⟩ := hrest
    refine ⟨r,s,.call hactive hr,rfl,?_⟩
    rw [Next, if_neg (by rw [h]; nofun)]

theorem replace_runs {between : ProcessM Unit} (hb : ∀ s, Runs s between (.ok ()) s) (name : String)
    (s : Metered (ℕ × Counter)) : ∃ t, Runs s (replace .internal between openDatabase name) (.ok ()) t ∧
      t.counts = s.counts ∧ Fresh s.slot t.slot := by
  have htake : meter.Does s .takeActive s.slot.active ⟨s.slot.take,s.counts⟩ := ⟨⟨rfl,rfl⟩,.refl _,trivial⟩
  have hrest : ∀ u : Metered (ℕ × Counter), Runs u (do between; let _ ← install openDatabase name; pure ()) (.ok ())
      ⟨(u.slot.build name).set ⟨name,u.slot.opened.length⟩,u.counts⟩ :=
    fun u => (hb u).bind_ok ((install_runs name u).bind_ok (.ok _ _))
  cases h : s.slot.active with
  | none =>
    rw [h] at htake
    exact ⟨_,.call htake (hrest _),rfl,fresh_install s.slot.take name⟩
  | some current =>
    rw [h] at htake
    have hclose : meter.Does ⟨s.slot.take,s.counts⟩ (.close current.db) (.ok ())
        ⟨s.slot.take.close current.db,s.counts⟩ := ⟨rfl,.refl _,trivial⟩
    exact ⟨_,.call htake (.call hclose (hrest _)),rfl,fresh_install (s.slot.take.close current.db) name⟩

theorem free_performs {α : Type} {p : ProcessM α} (hp : p.Asks Op.Harmless) (s : Metered (ℕ × Counter)) :
    ∃ r, meter.Performs s (free p) r s := by
  obtain ⟨r,hr⟩ := harmless_runs hp s
  exact ⟨r,hr.free record_eq none⟩

theorem locked_performs {α β : Type} {p : ProcessM β} {f : β → ProcessM α} (hf : ∀ b, (f b).Asks Op.Harmless)
    {s t : Metered (ℕ × Counter)} {r : Except AppError β} (hp : Runs s p r t) :
    ∃ r', meter.Performs s (withLock p >>= fun b => free (f b)) r' t := by
  have hlocked := hp.withLock (i := ()) record_eq
  cases r with
  | error e => exact ⟨_,hlocked.bind_error⟩
  | ok b =>
    obtain ⟨r',hr'⟩ := free_performs (hf b) t
    exact ⟨r',hlocked.bind_ok hr'⟩

theorem replaces_iff {req : Request} : Replaces req ↔
    ValidDatabaseName req.database ∧ (req.call = .ok .reopen ∨ req.call = .ok .clearCache) := by
  obtain ⟨name,call⟩ := req
  by_cases hname : ValidDatabaseName name
  swap
  · simp [Replaces, slotUse, hname]
  rcases call with rejection | call
  · simp [Replaces, slotUse, hname]
  cases call with
  | benchmarkBatch value clients => by_cases hbatch : ValidBatch clients <;> simp [Replaces, slotUse, hname, hbatch]
  | _ => simp [Replaces, slotUse, hname]

theorem removeCache_runs (name : String) (s : Metered (ℕ × Counter)) : Runs s (removeCache name) (.ok ()) s := by
  have hremove : meter.Does s (.own (.removeDirAll (cacheDir name))) (.ok ()) s := ⟨rfl,.refl _,trivial⟩
  exact .call hremove (.ok _ _)

theorem replacing_performs {between : ProcessM Unit} (hb : ∀ s, Runs s between (.ok ()) s) {name : String}
    (hname : ValidDatabaseName name) (s : Metered (ℕ × Counter)) :
    ∃ r t, meter.Performs s (do
      validateDatabaseName name
      withLock (replace .internal between openDatabase name)
      pure (.done : Answer Counters)) r t ∧ t.counts = s.counts ∧ Fresh s.slot t.slot := by
  obtain ⟨t,ht,hcounts,hfresh⟩ := replace_runs hb name s
  rw [validateDatabaseName, if_pos hname]
  exact ⟨_,t,(ht.withLock record_eq).bind_ok (.ok _ _),hcounts,hfresh⟩

/-- Any request may run so that it opens or replaces what it can. -/
theorem request_performs (req : Request) (s : Metered (ℕ × Counter)) : ∃ r t,
    meter.Performs s (handle req) r t ∧ t.counts = s.counts ∧ Next (slotUse .replaces req) s.slot t.slot := by
  have hshape := handle_shape req
  by_cases hreplaces : Replaces req
  · rw [show slotUse .replaces req = .replaces from hreplaces]
    obtain ⟨hname,hcall⟩ := replaces_iff.mp hreplaces
    obtain ⟨name,call⟩ := req
    dsimp only at hname hcall
    rcases hcall with rfl | rfl
    · exact replacing_performs (fun s => .ok s ()) hname s
    · exact replacing_performs (removeCache_runs name) hname s
  generalize handle req = q at hshape ⊢
  cases huse : slotUse .replaces req with
  | replaces => exact absurd huse hreplaces
  | spares =>
    rw [huse] at hshape
    cases hshape with
    | rejected e => exact ⟨_,s,.err _ e,rfl,rfl⟩
    | free hp =>
      obtain ⟨r,hr⟩ := free_performs hp s
      exact ⟨r,s,hr,rfl,rfl⟩
    | reading hp hf =>
      obtain ⟨r,hr⟩ := harmless_runs hp s
      obtain ⟨r',hr'⟩ := locked_performs hf hr
      exact ⟨r',s,hr',rfl,rfl⟩
  | opens =>
    rw [huse] at hshape
    cases hshape with
    | guarded hf =>
      obtain ⟨r,t,hr,hcounts,hnext⟩ := current_runs req.database s
      obtain ⟨r',hr'⟩ := locked_performs hf hr
      exact ⟨r',t,hr',hcounts,hnext⟩

theorem stats_performs {name : String} (hname : ValidDatabaseName name) (s : Metered (ℕ × Counter)) :
    ∃ p : Served (ℕ × Counter) Counters, p.req = ⟨name,.ok .stats⟩ ∧ p.before = s ∧ p.after = s ∧
      meter.Performs p.before (handle p.req) p.outcome p.after ∧
      ∃ a, p.Reports a ∧ ∀ c, value a c = slotValue s c := by
  have hread : ∃ read, Runs s activeMetrics (.ok read) s := by
    have hactive : meter.Does s .active s.slot.active s := ⟨⟨rfl,rfl⟩,.refl _,trivial⟩
    cases h : s.slot.active with
    | none =>
      rw [h] at hactive
      exact ⟨_,.call hactive (.ok _ _)⟩
    | some current =>
      rw [h] at hactive
      have hadapter : (Op.own (Own.adapter current.db)).Harmless := trivial
      have hmetrics : (Op.metrics current.db : Op Own).Harmless := trivial
      exact ⟨_,.call hactive (.call (does_answer hadapter s) (.call (does_answer hmetrics s) (.ok _ _)))⟩
  obtain ⟨read,hread⟩ := hread
  have hsize : (Op.own (Own.directorySize (cacheDir name))).Harmless := trivial
  have hstatus : ∃ status, Runs s (AppState.status name read) (.ok (.status status)) s :=
    ⟨_,.call (does_answer hsize s) (.ok _ _)⟩
  obtain ⟨status,hstatus⟩ := hstatus
  have hperforms : meter.Performs s (handle ⟨name,.ok .stats⟩) (.ok (.status status)) s := by
    change meter.Performs s (validateDatabaseName name >>= _) _ _
    rw [validateDatabaseName, if_pos hname]
    exact (hread.withLock record_eq).bind_ok (hstatus.free record_eq none)
  refine ⟨⟨⟨name,.ok .stats⟩,.ok (.status status),s,s⟩,rfl,rfl,rfl,hperforms,status.adapter,
    ⟨rfl,status,rfl,rfl⟩,?_⟩
  obtain ⟨_,_,n,hn,hvalue⟩ := reports_slot (p := ⟨⟨name,.ok .stats⟩,.ok (.status status),s,s⟩)
    ⟨rfl,status,rfl,rfl⟩ hperforms
  have hcounts : n = s.counts := funext fun c => le_antisymm (hn c).2 (hn c).1
  intro c
  rw [hvalue, hcounts]

/-- The slot after some requests, each of which opens or replaces what it can. -/
def Path : List Request → State → State → Prop
  | [], s, t => t = s
  | req :: rest, s, t => ∃ u, Next (slotUse .replaces req) s u ∧ Path rest u t

theorem session_extends (requests : List Request) {log : List (Served (ℕ × Counter) Counters)}
    {s : Metered (ℕ × Counter)} (h : meter.Session handle log s) : ∃ more t,
      meter.Session handle (log ++ more) t ∧ more.map Served.req = requests ∧ t.counts = s.counts ∧
        Path requests s.slot t.slot := by
  induction requests generalizing log s with
  | nil => exact ⟨[],s,by simpa using h,rfl,rfl,rfl⟩
  | cons req requests ih =>
    obtain ⟨r,u,hr,hu,hnext⟩ := request_performs req s
    obtain ⟨more,t,hmore,hrequests,ht,hpath⟩ := ih (h.snoc ⟨req,r,s,u⟩ hr)
    refine ⟨⟨req,r,s,u⟩ :: more,t,by simpa using hmore,by simp [hrequests],ht.trans hu,u.slot,hnext,hpath⟩

def Numbered (s : State) : Prop := ∀ a, s.active = some a → a.db < s.opened.length

theorem Next.numbered {use : SlotUse} {s t : State} (h : Next use s t) (hs : Numbered s) :
    Numbered t ∧ s.opened.length ≤ t.opened.length := by
  have hfresh : Fresh s t → Numbered t ∧ s.opened.length ≤ t.opened.length := by
    rintro ⟨hlength,name,hactive⟩
    refine ⟨fun a ha => ?_,by omega⟩
    rw [hactive] at ha
    cases ha
    rw [hlength]
    exact Nat.lt_succ_self _
  cases use with
  | spares =>
    cases h
    exact ⟨hs,le_rfl⟩
  | replaces => exact hfresh h
  | opens =>
    rw [Next] at h
    split_ifs at h
    · exact hfresh h
    · cases h
      exact ⟨hs,le_rfl⟩

theorem Path.numbered {requests : List Request} {s t : State} (h : Path requests s t) (hs : Numbered s) :
    Numbered t ∧ s.opened.length ≤ t.opened.length := by
  induction requests generalizing s with
  | nil =>
    cases h
    exact ⟨hs,le_rfl⟩
  | cons req requests ih =>
    obtain ⟨u,hnext,hpath⟩ := h
    obtain ⟨hu,hle⟩ := hnext.numbered hs
    obtain ⟨ht,hle'⟩ := ih hpath hu
    exact ⟨ht,hle.trans hle'⟩

def Newer (n : ℕ) (s : State) : Prop := ∃ a, s.active = some a ∧ n ≤ a.db

theorem Next.newer {use : SlotUse} {s t : State} (h : Next use s t) {n : ℕ} (hn : n ≤ s.opened.length)
    (hs : Newer n s ∨ use = .replaces ∨ s.active = none ∧ use = .opens) : Newer n t := by
  have hfresh : Fresh s t → Newer n t := by
    rintro ⟨_,name,hactive⟩
    exact ⟨_,hactive,hn⟩
  cases use with
  | spares =>
    cases h
    exact hs.resolve_right (by simp)
  | replaces => exact hfresh h
  | opens =>
    rw [Next] at h
    split_ifs at h with hnone
    · exact hfresh h
    · cases h
      exact hs.resolve_right (by simp [hnone])

theorem Path.newer {requests : List Request} {s t : State} (h : Path requests s t) {n : ℕ}
    (hn : n ≤ s.opened.length) (hnumbered : Numbered s)
    (hs : Newer n s ∨ ∃ r ∈ requests, Replaces r) : Newer n t := by
  induction requests generalizing s with
  | nil =>
    cases h
    exact hs.resolve_right (by simp)
  | cons req requests ih =>
    obtain ⟨u,hnext,hpath⟩ := h
    obtain ⟨hu,hle⟩ := hnext.numbered hnumbered
    apply ih hpath (hn.trans hle) hu
    rcases hs with hs | ⟨r,hr,hreplaces⟩
    · exact .inl (hnext.newer hn (.inl hs))
    · rcases List.mem_cons.mp hr with rfl | hr
      · exact .inl (hnext.newer hn (.inr (.inl hreplaces)))
      · exact .inr ⟨r,hr,hreplaces⟩

/-- A request that may open a database leaves one in the slot, and the others keep it there. -/
theorem Path.active {requests : List Request} {s t : State} (h : Path requests s t) (hnumbered : Numbered s)
    (hs : Newer 0 s ∨ ∃ r ∈ requests, Opens r) : Newer 0 t := by
  induction requests generalizing s with
  | nil =>
    cases h
    exact hs.resolve_right (by simp)
  | cons req requests ih =>
    obtain ⟨u,hnext,hpath⟩ := h
    apply ih hpath (hnext.numbered hnumbered).1
    have hopen : Newer 0 s ∨ s.active = none := by
      cases hactive : s.active with
      | none => exact .inr rfl
      | some a => exact .inl ⟨a,hactive,Nat.zero_le _⟩
    rcases hs with hs | ⟨r,hr,hopens⟩
    · exact .inl (hnext.newer (Nat.zero_le _) (.inl hs))
    · rcases List.mem_cons.mp hr with rfl | hr
      · apply Or.inl
        apply hnext.newer (Nat.zero_le _)
        cases huse : slotUse .replaces r with
        | spares => exact absurd huse hopens
        | replaces => exact .inr (.inl rfl)
        | opens => exact hopen.imp_right fun hnone => .inr ⟨hnone,rfl⟩
      · exact .inr ⟨r,hr,hopens⟩

def counting (counts : ℕ × Counter → ℕ) (db : ℕ) (c : ℕ × Counter) : ℕ := counts c + raised c [((db,.gets),1)]

theorem slotValue_gets {s : Metered (ℕ × Counter)} {a : ActiveDb} (h : s.slot.active = some a) :
    slotValue s "r2Gets" = some (s.counts (a.db,.gets)) := by
  rw [slotValue, h, Option.bind_some, value_snapshot]
  rfl

/-- Between two requests for statistics, a database whose counters start at zero takes the
place of one that has counted. -/
theorem not_cumulative_of_resets {requests : List Request} (h : Resets requests) :
    ∃ log s, meter.Session handle log s ∧ log.map Served.req = requests ∧ ¬ Cumulative value log := by
  obtain ⟨first,⟨pname,pcall⟩,between,⟨qname,qcall⟩,last,rfl,⟨hp,rfl⟩,⟨hq,rfl⟩,hopens,hreplaces⟩ := h
  have hstart : Numbered State.empty := by
    intro a ha
    cases ha
  obtain ⟨log₁,t₁,h₁,hfirst,hzero,hpath₁⟩ := session_extends first Meter.Session.nil
  obtain ⟨a,ha,_⟩ := hpath₁.active hstart (.inr hopens)
  obtain ⟨hnumbered,_⟩ := hpath₁.numbered hstart
  have hraises : Raises (meter.movable t₁.slot) t₁.counts (counting t₁.counts a.db) :=
    ⟨[((a.db,.gets),1)],by simpa [meter] using hnumbered a ha,fun _ => rfl⟩
  obtain ⟨p,hpreq,hpbefore,hpafter,hpperforms,x,hx,hxvalue⟩ :=
    stats_performs hp ⟨t₁.slot,counting t₁.counts a.db⟩
  have h₂ := Meter.Session.snoc p (by rw [hpbefore]; exact h₁.idle hraises) hpperforms
  rw [hpafter] at h₂
  obtain ⟨log₃,t₃,h₃,hbetween,hkept,hpath₃⟩ := session_extends between h₂
  obtain ⟨b,hb,hnewer⟩ := hpath₃.newer le_rfl hnumbered (.inr hreplaces)
  obtain ⟨q,hqreq,hqbefore,hqafter,hqperforms,y,hy,hyvalue⟩ := stats_performs hq t₃
  have h₄ := Meter.Session.snoc q (by rw [hqbefore]; exact h₃) hqperforms
  rw [hqafter] at h₄
  obtain ⟨log₅,t₅,h₅,hlast,_,_⟩ := session_extends last h₄
  refine ⟨_,t₅,h₅,by simp [hfirst, hpreq, hbetween, hqreq, hlast],fun hcumulative => ?_⟩
  have hbefore : value x "r2Gets" = some 1 := by
    rw [hxvalue, slotValue_gets (s := ⟨t₁.slot,counting t₁.counts a.db⟩) ha]
    simp [counting, hzero, Metered.start]
  have hafter : value y "r2Gets" = some 0 := by
    have hne : a.db ≠ b.db := ((hnumbered a ha).trans_le hnewer).ne
    rw [hyvalue, slotValue_gets hb, hkept]
    simp [counting, hzero, Metered.start, raised, hne]
  obtain ⟨w,hw,hle⟩ := hcumulative log₁ p log₃ q log₅ (by simp) x y hx hy "r2Gets" 1 hbefore
  rw [hafter] at hw
  cases hw
  exact absurd hle (by decide)

end AppState

/-- The object's statistics are cumulative. Those of the process are for exactly the
requests that replace no database between two requests for statistics. -/
theorem stats_cumulative_iff (L : DoCache.LocalCacheHead) :
    (∀ log s, (SlateDbObject.meter (L := L)).Session SlateDbObject.handle log s →
      Cumulative SlateDbObject.value log) ∧
    ∀ requests, (∀ log s, AppState.meter.Session AppState.handle log s → log.map Served.req = requests →
      Cumulative AppState.value log) ↔ ¬ AppState.Resets requests := by
  refine ⟨fun _ _ => SlateDbObject.cumulative,fun requests => ⟨fun hlaw hresets => ?_,fun hresets log s h hlog => ?_⟩⟩
  · obtain ⟨log,s,h,hlog,hnot⟩ := AppState.not_cumulative_of_resets hresets
    exact hnot (hlaw log s h hlog)
  · subst hlog
    exact AppState.cumulative_of_kept h hresets

/-- The log ends with two reports, in which the counter goes from one to two. -/
def CountsUp {κ Adapter ν : Type} (value : Adapter → ν → Option ℕ) (log : List (Served κ Adapter)) (c : ν) : Prop :=
  ∃ first p q a b, log = first ++ [p,q] ∧ p.Reports a ∧ q.Reports b ∧ value a c = some 1 ∧ value b c = some 2

namespace SlateDbObject
open Perf

def recorded (o : Increment) (s : Metered PerfCounter) : Metered PerfCounter :=
  ⟨s.slot,fun c => s.counts c + raised c [o]⟩

def listed (s : Metered PerfCounter) : Metered PerfCounter := recorded (.doKvRowsRead,0) (recorded (.doKvLists,1) s)

def statsServed (s : Metered PerfCounter) : Served PerfCounter PerfSnapshot where
  req := ⟨"tenant",.ok .stats⟩
  outcome := .ok (.status ⟨"durable-object",false,false,0,(listed s).counts,[]⟩)
  before := s
  after := listed s

theorem stats_performs {s : Metered PerfCounter} (hnone : s.slot.active = none) :
    (meter (L := DoCache.LocalCacheHead.plain)).Performs s (handle ⟨"tenant",.ok .stats⟩) (statsServed s).outcome
      (listed s) := by
  have htenant : ValidDatabaseName "tenant" := by decide
  have hrecord : ∀ o u g, (meter (L := DoCache.LocalCacheHead.plain)).record o (u,g) = (recorded o u,g) :=
    fun _ _ _ => rfl
  have hactive : Performs (meter (L := DoCache.LocalCacheHead.plain)).Does recorded s activeMetrics
      (.ok (false,[])) s :=
    .call (x := none) ⟨⟨hnone.symm,rfl⟩,.refl _,trivial⟩ (.ok _ _)
  have hsnapshot : (meter (L := DoCache.LocalCacheHead.plain)).Does (listed s) (.own .snapshot) (listed s).counts
      (listed s) := ⟨rfl,.refl _,rfl⟩
  have hstatus : Performs (meter (L := DoCache.LocalCacheHead.plain)).Does recorded s (status (false,[]))
      (statsServed s).outcome (listed s) := by
    refine .emit (.call (x := .ok (0 : ℕ)) ⟨rfl,.refl _,trivial⟩ (.emit ?_))
    refine .call (x := (0 : ℕ)) (u := listed s) ⟨rfl,.refl _,trivial⟩ ?_
    exact Performs.call hsnapshot (.ok _ _)
  rw [handle, if_neg (not_not_intro htenant)]
  exact (hactive.withLock hrecord).bind_ok (hstatus.free hrecord none)

end SlateDbObject

theorem stats_cumulative_counted :
    (∃ log s, (SlateDbObject.meter (L := DoCache.LocalCacheHead.plain)).Session SlateDbObject.handle log s ∧
      CountsUp SlateDbObject.value log .doKvLists ∧ Cumulative SlateDbObject.value log) ∧
    ∃ log s, AppState.meter.Session AppState.handle log s ∧ CountsUp AppState.value log "r2Gets" ∧
      Cumulative AppState.value log := by
  obtain ⟨hobject,hprocess⟩ := stats_cumulative_iff DoCache.LocalCacheHead.plain
  have htenant : ValidDatabaseName "tenant" := by decide
  constructor
  · let p := SlateDbObject.statsServed .start
    let q := SlateDbObject.statsServed p.after
    have hp := Meter.Session.nil.snoc p (SlateDbObject.stats_performs rfl)
    have hq := hp.snoc q (SlateDbObject.stats_performs rfl)
    exact ⟨_,_,hq,⟨[],p,q,_,_,rfl,⟨rfl,_,rfl,rfl⟩,⟨rfl,_,rfl,rfl⟩,rfl,rfl⟩,hobject _ _ hq⟩
  · have hopens : ∃ r ∈ [(⟨"tenant",.ok .flush⟩ : Request)], AppState.Opens r :=
      ⟨_,List.mem_singleton.mpr rfl,by simp [AppState.Opens, slotUse, htenant]⟩
    have hstart : AppState.Numbered State.empty := by
      intro a ha
      cases ha
    obtain ⟨log,t,hlog,hrequests,hzero,hpath⟩ := AppState.session_extends [⟨"tenant",.ok .flush⟩] Meter.Session.nil
    obtain ⟨a,ha,_⟩ := hpath.active hstart (.inr hopens)
    obtain ⟨hnumbered,_⟩ := hpath.numbered hstart
    have hraises : ∀ n, Raises (AppState.meter.movable t.slot) n (AppState.counting n a.db) :=
      fun n => ⟨[((a.db,.gets),1)],by simpa [AppState.meter] using hnumbered a ha,fun _ => rfl⟩
    let once := AppState.counting t.counts a.db
    let twice := AppState.counting once a.db
    obtain ⟨p,hpreq,hpbefore,hpafter,hpperforms,x,hx,hxvalue⟩ := AppState.stats_performs htenant ⟨t.slot,once⟩
    have hp := Meter.Session.snoc p (by rw [hpbefore]; exact hlog.idle (hraises _)) hpperforms
    rw [hpafter] at hp
    obtain ⟨q,hqreq,hqbefore,hqafter,hqperforms,y,hy,hyvalue⟩ := AppState.stats_performs htenant ⟨t.slot,twice⟩
    have hq := Meter.Session.snoc q (by rw [hqbefore]; exact hp.idle (hraises _)) hqperforms
    have hone : AppState.value x "r2Gets" = some 1 := by
      rw [hxvalue, AppState.slotValue_gets (s := ⟨t.slot,once⟩) ha]
      simp [once, AppState.counting, hzero, Metered.start]
    have htwo : AppState.value y "r2Gets" = some 2 := by
      rw [hyvalue, AppState.slotValue_gets (s := ⟨t.slot,twice⟩) ha]
      simp [twice, once, AppState.counting, hzero, Metered.start]
    have hkept : ¬ AppState.Resets [⟨"tenant",.ok .flush⟩,⟨"tenant",.ok .stats⟩,⟨"tenant",.ok .stats⟩] := by
      rintro ⟨first,_,between,_,last,heq,_,_,⟨_,hfirst,_⟩,_,hbetween,_⟩
      have hlength := congrArg List.length heq
      have hpos := List.length_pos_of_mem hfirst
      have hpos' := List.length_pos_of_mem hbetween
      simp only [List.length_cons, List.length_append, List.length_nil] at hlength
      omega
    refine ⟨_,_,hq,⟨log,p,q,x,y,by simp,hx,hy,hone,htwo⟩,(hprocess _).mpr hkept _ _ hq ?_⟩
    simp [hrequests, hpreq, hqreq]

/-- A reopening between two requests for statistics. -/
theorem reopening_resets_stats :
    ¬ ∀ log s, AppState.meter.Session AppState.handle log s → Cumulative AppState.value log := by
  intro hlaw
  have htenant : ValidDatabaseName "tenant" := by decide
  have hresets : AppState.Resets [⟨"tenant",.ok .flush⟩,⟨"tenant",.ok .stats⟩,⟨"tenant",.ok .reopen⟩,
      ⟨"tenant",.ok .stats⟩] := by
    refine ⟨[⟨"tenant",.ok .flush⟩],⟨"tenant",.ok .stats⟩,[⟨"tenant",.ok .reopen⟩],⟨"tenant",.ok .stats⟩,[],rfl,
      ⟨htenant,rfl⟩,⟨htenant,rfl⟩,⟨_,List.mem_singleton.mpr rfl,?_⟩,⟨_,List.mem_singleton.mpr rfl,?_⟩⟩
    · simp [AppState.Opens, slotUse, htenant]
    · exact AppState.replaces_iff.mpr ⟨htenant,.inl rfl⟩
  obtain ⟨log,s,h,_,hnot⟩ := AppState.not_cumulative_of_resets hresets
  exact hnot (hlaw log s h)

end SlatedbCloudflare
