import SlatedbCloudflare.Instance.OneWriter
import SlatedbCloudflare.Library.Recording

/-! # The adapter counters of an instance

Beside its slot an instance has counters that only ever take increments: from the
outputs of its handlers, and at any time from its databases, which work in the
background. Which counters a state keeps, and what reads them, is up to the service.
-/
namespace SlatedbCloudflare.Instance
open Programs Locks Counting Recording

variable {Own : Type} {Returned : Own → Type} {Out κ Adapter : Type}

structure Meter (Returned : Own → Type) (Out κ : Type) where
  movable : State → κ → Prop
  counted : Out → κ × ℕ
  reads : (κ → ℕ) → (r : Op Own) → Reply Returned r → Prop

structure Metered (κ : Type) where
  slot : State
  counts : κ → ℕ

def Metered.start : Metered κ := ⟨State.empty,fun _ => 0⟩

structure Served (κ Adapter : Type) where
  req : Request
  outcome : Except AppError (Answer Adapter)
  before : Metered κ
  after : Metered κ

/-- The response to a request for statistics, with these adapter counters. -/
def Served.Reports (p : Served κ Adapter) (adapter : Adapter) : Prop :=
  p.req.call = .ok .stats ∧ ∃ status, p.outcome = .ok (.status status) ∧ status.adapter = adapter

/-- Every counter of a report is in all later ones, with a value at least as large. -/
def Cumulative {ν : Type} (value : Adapter → ν → Option ℕ) (log : List (Served κ Adapter)) : Prop :=
  ∀ first p between q last, log = first ++ p :: (between ++ q :: last) → ∀ a b, p.Reports a → q.Reports b →
    ∀ c v, value a c = some v → ∃ w, value b c = some w ∧ v ≤ w

section Runs
variable [DecidableEq κ] (M : Meter Returned Out κ)

def Meter.Does (s : Metered κ) (r : Op Own) (x : Reply Returned r) (t : Metered κ) : Prop :=
  Instance.Does s.slot r x t.slot ∧ Raises (M.movable t.slot) s.counts t.counts ∧ M.reads t.counts r x

def Meter.record (o : Out) (s : Metered κ × Option Unit) : Metered κ × Option Unit :=
  (⟨s.1.slot,fun c => s.1.counts c + raised c [M.counted o]⟩,s.2)

abbrev Meter.Performs {α : Type} (s : Metered κ) (q : HandlerM Returned Out α) (r : Except AppError α)
    (t : Metered κ) : Prop :=
  Recording.Performs (Alone M.Does ()) M.record (s,none) q r (t,none)

inductive Meter.Session (handler : Request → HandlerM Returned Out (Answer Adapter)) :
    List (Served κ Adapter) → Metered κ → Prop
  | nil : Meter.Session handler [] .start
  | idle {log : List (Served κ Adapter)} {s : Metered κ} {n : κ → ℕ} (h : Meter.Session handler log s)
      (hn : Raises (M.movable s.slot) s.counts n) : Meter.Session handler log ⟨s.slot,n⟩
  | snoc {log : List (Served κ Adapter)} (p : Served κ Adapter) (h : Meter.Session handler log p.before)
      (hp : M.Performs p.before (handler p.req) p.outcome p.after) :
      Meter.Session handler (log ++ [p]) p.after

variable {M} {handler : Request → HandlerM Returned Out (Answer Adapter)} {α : Type}

/-- No counter fell from one state to the other. -/
def Grown (s t : Metered κ × Option Unit) : Prop := ∀ c, s.1.counts c ≤ t.1.counts c

theorem Meter.grown_of_does {s t : Metered κ × Option Unit} {q : Locked (Op Own)}
    {x : Locked.Reply (Reply Returned) q} (h : Alone M.Does () s q x t) : Grown s t := by
  intro c
  cases q with
  | lock | unlock => rw [h.2.2]
  | act r => exact h.1.2.1.le c

theorem Meter.grown_of_record (o : Out) (s : Metered κ × Option Unit) : Grown s (M.record o s) :=
  fun _ => Nat.le_add_right _ _

omit [DecidableEq κ] in
theorem Grown.refl (s : Metered κ × Option Unit) : Grown s s := fun _ => le_rfl

omit [DecidableEq κ] in
theorem Grown.trans {s u t : Metered κ × Option Unit} (h : Grown s u) (h' : Grown u t) : Grown s t :=
  fun c => (h c).trans (h' c)

theorem Meter.grown {s t : Metered κ} {q : HandlerM Returned Out α} {r : Except AppError α}
    (h : M.Performs s q r t) (c : κ) : s.counts c ≤ t.counts c :=
  h.relates (R := Grown) Grown.refl (fun _ _ _ => Grown.trans) (fun _ _ _ _ => grown_of_does)
    grown_of_record c

/-- A request treats the slot as it does without counters, and reads values that the
counters had meanwhile. -/
theorem Meter.returns {s t : Metered κ} {q : HandlerM Returned Out α} {r : Except AppError α}
    (h : M.Performs s q r t) : ∃ tr os, Returns q tr os r ∧
      Chain (Alone Instance.Does ()) (s.slot,none) tr (t.slot,none) ∧
      ∀ r x, ⟨.act r,x⟩ ∈ tr → ∃ n : κ → ℕ, (∀ c, s.counts c ≤ n c ∧ n c ≤ t.counts c) ∧ M.reads n r x := by
  have hserve : ∀ (s : Metered κ × Option Unit) q x (t : Metered κ × Option Unit), Alone M.Does () s q x t →
      Alone Instance.Does () (s.1.slot,s.2) q x (t.1.slot,t.2) := by
    rintro ⟨s,g⟩ q x ⟨t,g'⟩ hs
    cases q with
    | lock | unlock => exact ⟨hs.1,hs.2.1,congrArg Metered.slot hs.2.2⟩
    | act r => exact ⟨hs.1.1,hs.2⟩
  obtain ⟨tr,os,hr,hc,hbetween⟩ := Recording.Performs.returns (R := Grown) h (fun s => (s.1.slot,s.2))
    (fun _ _ => rfl) hserve Grown.refl (fun _ _ _ => Grown.trans) (fun _ _ _ _ => grown_of_does) grown_of_record
  refine ⟨tr,os,hr,hc,fun r x hx => ?_⟩
  obtain ⟨u,v,hu,hs,hv⟩ := hbetween _ hx
  exact ⟨v.1.counts,fun c => ⟨(hu c).trans (grown_of_does hs c),hv c⟩,hs.1.2.2⟩

theorem Meter.Session.upTo {log first last : List (Served κ Adapter)} {p : Served κ Adapter} {s : Metered κ}
    (h : M.Session handler log s) (hlog : log = first ++ p :: last) :
    M.Session handler first p.before ∧ M.Performs p.before (handler p.req) p.outcome p.after := by
  induction h generalizing last with
  | nil => simp at hlog
  | idle _ _ ih => exact ih hlog
  | @snoc init q h hq ih =>
    rcases List.eq_nil_or_concat last with rfl | ⟨rest,q',rfl⟩
    · obtain ⟨rfl,hqp⟩ := List.append_inj' hlog rfl
      cases hqp
      exact ⟨h,hq⟩
    · have hlog' : init ++ [q] = (first ++ p :: rest) ++ [q'] := by
        rw [hlog, List.concat_eq_append, List.append_assoc, List.cons_append]
      obtain ⟨hinit,_⟩ := List.append_inj' hlog' rfl
      exact ih hinit

end Runs

end SlatedbCloudflare.Instance
