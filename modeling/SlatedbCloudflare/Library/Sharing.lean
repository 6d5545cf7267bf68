import SlatedbCloudflare.Library.Locks
import Mathlib.Algebra.BigOperators.Group.Finset.Piecewise
import Mathlib.Algebra.Order.BigOperators.Group.Finset
import Mathlib.Algebra.Order.Ring.Nat
import Mathlib.Data.Fintype.Card
import Mathlib.Data.Multiset.Range

/-! # Workers that share a counter

Each worker takes the next index from a common counter and performs its work, until the
indices are used up. Whatever the order of their steps, every index is performed once.
-/
namespace SlatedbCloudflare.Sharing
open Programs Locks

/-- What a worker asks for: the next index, or the result of the work on one. -/
inductive Work
  | take
  | perform (index : ℕ)

abbrev Work.Reply (ρ : Type) : Work → Type
  | .take => ℕ
  | .perform _ => ρ

structure Shared (ρ : Type) where
  next : ℕ
  done : List (ℕ × ρ)

variable {ι ρ : Type} (possible : ℕ → ρ → Prop) (count : ℕ)

/-- The counter steps as it is read, and each result is kept. -/
def serve (s : Shared ρ) : (r : Work) → Work.Reply ρ r → Shared ρ → Prop
  | .take, x, t => x = s.next ∧ t = ⟨s.next + 1,s.done⟩
  | .perform index, x, t => possible index x ∧ t = ⟨s.next,s.done ++ [(index,x)]⟩

/-- The loop of a worker, cut off after `bound` indices. -/
def worker : ℕ → Prog Work (Work.Reply ρ) Empty Unit Unit
  | 0 => .err ()
  | bound + 1 => do
    let index ← Prog.ask .take
    if index < count then do
      let _ ← Prog.ask (.perform index)
      worker bound
    else pure ()

abbrev WorkerPool (ι ρ : Type) := Pool ι (Shared ρ) Work (Work.Reply ρ) Empty Unit Unit

abbrev Thread (ρ : Type) := LockedProg Work (Work.Reply ρ) Empty Unit Unit

def workers : WorkerPool ι ρ := start ⟨0,[]⟩ fun _ => free (worker count (count + 1))

def held : Thread ρ → Multiset ℕ
  | .call (.act (.perform index)) _ => {index}
  | _ => 0

def ended : Thread ρ → ℕ
  | .ok _ => 1
  | _ => 0

/-- Where a worker stands: its bound lasts for the indices that are left. -/
inductive Phase (next : ℕ) : Thread ρ → Prop
  | taking {bound : ℕ} (h : 0 < bound) (hleft : count < bound + next) : Phase next (free (worker count bound))
  | performing {bound index : ℕ} (h : index < count) (htaken : index < next) (hleft : count ≤ bound + index) :
      Phase next (.call (.act (.perform index)) fun _ => free (worker count bound))
  | returned (h : count ≤ next) : Phase next (.ok ())

variable {possible count}

theorem free_worker (bound : ℕ) : (free (worker count (bound + 1)) : Thread ρ) = .call (.act .take) fun index =>
    if index < count then .call (.act (.perform index)) fun _ => free (worker count bound) else .ok () := by
  apply congrArg (Prog.call (Locked.act Work.take))
  funext index
  change free (if index < count then _ else _) = _
  split_ifs <;> rfl

theorem Phase.mono {next next' : ℕ} {p : Thread ρ} (h : Phase count next p) (hle : next ≤ next') : Phase count next' p := by
  cases h with
  | taking h hleft => exact .taking h (by omega)
  | performing h htaken hleft => exact .performing h (by omega) hleft
  | returned h => exact .returned (by omega)

/-- What a worker holds and what has been performed are the indices that were taken. -/
structure Shares [Fintype ι] (count : ℕ) (T : WorkerPool ι ρ) : Prop where
  phases : ∀ i, Phase count T.state.next (T.thread i)
  taken : (T.state.done.map Prod.fst : Multiset ℕ) + ∑ i, held (T.thread i) = Multiset.range (min T.state.next count)
  beyond : ∑ i, ended (T.thread i) = T.state.next - count

section Updates
variable [Fintype ι] [DecidableEq ι] {M : Type} [AddCommMonoid M]

theorem sum_update (f : Thread ρ → M) (thread : ι → Thread ρ) (i : ι) (p : Thread ρ) :
    ∑ j, f (Function.update thread i p j) = f p + ∑ j ∈ Finset.univ \ {i}, f (thread j) := by
  have hcomp : (fun j => f (Function.update thread i p j)) = Function.update (fun j => f (thread j)) i (f p) := by
    funext j
    by_cases hj : j = i
    · subst hj
      rw [Function.update_self, Function.update_self]
    · rw [Function.update_of_ne hj, Function.update_of_ne hj]
  rw [hcomp, Finset.sum_update_of_mem (Finset.mem_univ i)]

theorem sum_split (f : Thread ρ → M) (thread : ι → Thread ρ) (i : ι) :
    ∑ j, f (thread j) = f (thread i) + ∑ j ∈ Finset.univ \ {i}, f (thread j) := by
  rw [← sum_update f thread i, Function.update_eq_self]

end Updates

section Runs
variable [Fintype ι] [DecidableEq ι] {T U : WorkerPool ι ρ} {es : List (Event ι (Shared ρ) Work (Work.Reply ρ))}

omit [DecidableEq ι] in
theorem shares_workers : Shares count (workers count : WorkerPool ι ρ) := by
  refine ⟨fun _ => .taking (Nat.succ_pos _) (Nat.lt_succ_self _),?_,?_⟩
  · simp [workers, start, worker, free, held]
  · simp [workers, start, worker, free, ended]

theorem Shares.take (h : Shares count T) {i : ι} {bound : ℕ} (hleft : count < bound + 1 + T.state.next)
    (hi : T.thread i = free (worker count (bound + 1))) : Shares count
      ⟨⟨T.state.next + 1,T.state.done⟩,T.holder,Function.update T.thread i
        (if T.state.next < count then .call (.act (.perform T.state.next)) fun _ => free (worker count bound) else .ok ())⟩ := by
  have hheld := sum_split held T.thread i
  have hended := sum_split ended T.thread i
  rw [hi] at hheld hended
  have htaken := h.taken
  have hbeyond := h.beyond
  rw [hheld] at htaken
  rw [hended] at hbeyond
  change _ + (0 + _) = _ at htaken
  change 0 + _ = _ at hbeyond
  rw [zero_add] at htaken hbeyond
  refine ⟨fun j => ?_,?_,?_⟩
  · by_cases hj : j = i
    · subst hj
      simp only [Function.update_self]
      by_cases hlt : T.state.next < count
      · rw [if_pos hlt]
        exact .performing hlt (Nat.lt_succ_self _) (by omega)
      · rw [if_neg hlt]
        exact .returned (by omega)
    · simp only [Function.update_of_ne hj]
      exact (h.phases j).mono (Nat.le_succ _)
  · simp only [sum_update]
    by_cases hlt : T.state.next < count
    · have hmin : min (T.state.next + 1) count = min T.state.next count + 1 := by omega
      have hleast : min T.state.next count = T.state.next := by omega
      rw [if_pos hlt, hmin, Multiset.range_succ, ← htaken, hleast]
      change _ + (({T.state.next} : Multiset ℕ) + _) = _
      rw [← Multiset.singleton_add, add_left_comm]
    · have hmin : min (T.state.next + 1) count = min T.state.next count := by omega
      rw [if_neg hlt, hmin, ← htaken]
      change _ + (0 + _) = _
      rw [zero_add]
  · simp only [sum_update]
    by_cases hlt : T.state.next < count
    · rw [if_pos hlt]
      change 0 + _ = _
      omega
    · rw [if_neg hlt]
      change 1 + _ = _
      omega

theorem Shares.perform (h : Shares count T) {i : ι} {bound index : ℕ} (hlt : index < count)
    (htaken : index < T.state.next) (hleft : count ≤ bound + index)
    (hi : T.thread i = .call (.act (.perform index)) fun _ => free (worker count bound)) (x : ρ) : Shares count
      ⟨⟨T.state.next,T.state.done ++ [(index,x)]⟩,T.holder,Function.update T.thread i (free (worker count bound))⟩ := by
  obtain ⟨bound,rfl⟩ : ∃ n, bound = n + 1 := ⟨bound - 1,by omega⟩
  have hheld := sum_split held T.thread i
  have hended := sum_split ended T.thread i
  rw [hi] at hheld hended
  refine ⟨fun j => ?_,?_,?_⟩
  · by_cases hj : j = i
    · subst hj
      simp only [Function.update_self]
      exact .taking (Nat.succ_pos _) (by omega)
    · simp only [Function.update_of_ne hj]
      exact h.phases j
  · simp only [sum_update]
    rw [← h.taken, hheld, List.map_append, List.map_singleton, ← Multiset.coe_add, add_assoc]
    change _ + (({index} : Multiset ℕ) + (0 + _)) = _ + (({index} : Multiset ℕ) + _)
    rw [zero_add]
  · simp only [sum_update]
    rw [← h.beyond, hended]
    rfl

theorem Shares.step (h : Shares count T) {ev : List (Event ι (Shared ρ) Work (Work.Reply ρ))}
    (hs : Step (serve possible) T ev U) : Shares count U := by
  cases hs with
  | @emit i o => exact o.elim
  | @lock i k hi =>
    have hphase := h.phases i
    rw [hi] at hphase
    generalize hp : (Prog.call Locked.lock k : Thread ρ) = p at hphase
    cases hphase with
    | @taking bound hpos =>
      obtain ⟨bound,rfl⟩ : ∃ n, bound = n + 1 := ⟨bound - 1,by omega⟩
      cases hp
    | performing | returned => cases hp
  | @unlock i k hi =>
    have hphase := h.phases i
    rw [hi] at hphase
    generalize hp : (Prog.call Locked.unlock k : Thread ρ) = p at hphase
    cases hphase with
    | @taking bound hpos =>
      obtain ⟨bound,rfl⟩ : ∃ n, bound = n + 1 := ⟨bound - 1,by omega⟩
      cases hp
    | performing | returned => cases hp
  | @act i r k x t hi hserve =>
    have hphase := h.phases i
    rw [hi] at hphase
    generalize hp : (Prog.call (Locked.act r) k : Thread ρ) = p at hphase
    cases hphase with
    | @taking bound hpos hleft =>
      obtain ⟨bound,rfl⟩ : ∃ n, bound = n + 1 := ⟨bound - 1,by omega⟩
      have htake := h.take (i := i) hleft
      rw [free_worker] at hp htake
      cases hp
      obtain ⟨rfl,rfl⟩ := hserve
      exact htake hi
    | performing hlt htaken hleft =>
      cases hp
      obtain ⟨_,rfl⟩ := hserve
      exact h.perform hlt htaken hleft hi x
    | returned => cases hp

theorem shares_of_run (h : Run (serve possible) (workers count) es T) : Shares count T := by
  generalize hS : (workers count : WorkerPool ι ρ) = S at h
  induction h with
  | refl =>
    subst hS
    exact shares_workers
  | step _ ht ih => exact ih.step ht

omit [DecidableEq ι] in
/-- No index is performed twice. -/
theorem Shares.once (h : Shares count T) : (T.state.done.map Prod.fst).Nodup ∧
    ∀ index ∈ T.state.done.map Prod.fst, index < count := by
  have hle : (T.state.done.map Prod.fst : Multiset ℕ) ≤ Multiset.range (min T.state.next count) :=
    h.taken ▸ Multiset.le_add_right _ _
  refine ⟨Multiset.coe_nodup.mp (Multiset.nodup_of_le hle (Multiset.nodup_range _)),fun index hindex => ?_⟩
  have hmem := Multiset.mem_range.mp (Multiset.mem_of_le hle (Multiset.mem_coe.mpr hindex))
  omega

omit [DecidableEq ι] in
/-- When all workers have returned every index has been performed. -/
theorem Shares.complete (h : Shares count T) (hsome : count = 0 ∨ Nonempty ι) (hall : ∀ i, T.thread i = .ok ()) :
    (T.state.done.map Prod.fst).Perm (List.range count) := by
  have hnone : ∑ i, held (T.thread i) = 0 := by
    apply Finset.sum_eq_zero
    intro i _
    rw [hall i]
    rfl
  have hpast : min T.state.next count = count := by
    rcases hsome with rfl | ⟨⟨i⟩⟩
    · exact Nat.min_zero _
    · have hphase := h.phases i
      rw [hall i] at hphase
      generalize hp : (Prog.ok () : Thread ρ) = p at hphase
      cases hphase with
      | returned h => omega
      | @taking bound hpos =>
        obtain ⟨bound,rfl⟩ : ∃ n, bound = n + 1 := ⟨bound - 1,by omega⟩
        cases hp
      | performing => cases hp
  have htaken := h.taken
  rw [hnone, add_zero, hpast] at htaken
  exact Multiset.coe_eq_coe.mp htaken

omit [Fintype ι] in
theorem length_of_run (h : Run (serve possible) T es U) (hT : T.state.next = 0 ∧ T.state.done = []) :
    es.length = U.state.next + U.state.done.length := by
  induction h with
  | refl => rw [hT.1, hT.2, List.length_nil, List.length_nil]
  | step _ ht ih =>
    rw [List.length_append, ih]
    cases ht with
    | emit | lock | unlock => rfl
    | @act i r k x t hi hserve =>
      cases r with
      | take =>
        obtain ⟨_,rfl⟩ := hserve
        simp only [List.length_singleton]
        omega
      | perform index =>
        obtain ⟨_,rfl⟩ := hserve
        simp only [List.length_singleton, List.length_append]
        omega

omit [Fintype ι] in
theorem possible_of_run (h : Run (serve possible) T es U) (hT : T.state.done = []) :
    ∀ x ∈ U.state.done, possible x.1 x.2 := by
  induction h with
  | refl => simp [hT]
  | step _ ht ih =>
    cases ht with
    | emit | lock | unlock => exact ih
    | @act i r k x t hi hserve =>
      cases r with
      | take =>
        obtain ⟨_,rfl⟩ := hserve
        exact ih
      | perform index =>
        obtain ⟨hpossible,rfl⟩ := hserve
        intro y hy
        rcases List.mem_append.mp hy with hy | hy
        · exact ih y hy
        · cases List.mem_singleton.mp hy
          exact hpossible

omit [DecidableEq ι] in
theorem Shares.bounded (h : Shares count T) : T.state.next ≤ count + Fintype.card ι ∧ T.state.done.length ≤ count := by
  constructor
  · have hle : ∑ i, ended (T.thread i) ≤ ∑ _i : ι, 1 := by
      apply Finset.sum_le_sum
      intro i _
      cases T.thread i <;> simp [ended]
    rw [h.beyond, Finset.sum_const_nat fun _ _ => rfl, Finset.card_univ, Nat.mul_one] at hle
    omega
  · obtain ⟨hnodup,hlt⟩ := h.once
    have hsub : T.state.done.map Prod.fst ⊆ List.range count := fun index hindex => List.mem_range.mpr (hlt index hindex)
    have hlength := (List.subperm_of_subset hnodup hsub).length_le
    rwa [List.length_map, List.length_range] at hlength

omit [DecidableEq ι] in
theorem Shares.waiting (h : Shares count T) (i : ι) :
    T.thread i = .ok () ∨ ∃ r k, T.thread i = .call (.act r) k := by
  have hphase := h.phases i
  generalize T.thread i = p at hphase
  cases hphase with
  | returned => exact .inl rfl
  | performing => exact .inr ⟨_,_,rfl⟩
  | @taking bound hpos =>
    obtain ⟨bound,rfl⟩ : ∃ n, bound = n + 1 := ⟨bound - 1,by omega⟩
    exact .inr ⟨_,_,free_worker bound⟩

end Runs

end SlatedbCloudflare.Sharing
