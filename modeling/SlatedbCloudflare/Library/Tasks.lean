import SlatedbCloudflare.Library.Programs
import Mathlib.Algebra.BigOperators.Group.Finset.Piecewise
import Mathlib.Algebra.Order.BigOperators.Group.Finset
import Mathlib.Algebra.Order.Ring.Nat

/-! # Tasks that wait for replies

Several programs run at once. Each goes on by itself up to its next request, and
the replies arrive in any order.
-/
namespace SlatedbCloudflare.Tasks
open Programs

variable {ι Req : Type} {Resp : Req → Type} {ε α : Type}

abbrev Task (Req : Type) (Resp : Req → Type) (ε α : Type) := Prog Req Resp Empty ε α

structure Arrival (ι Req : Type) (Resp : Req → Type) where
  task : ι
  req : Req
  reply : Resp req

def Arrival.answer (a : Arrival ι Req Resp) : (r : Req) × Resp r := ⟨a.req,a.reply⟩

def pending : Task Req Resp ε α → List Req
  | .call r _ => [r]
  | _ => []

def fulfilled : Task Req Resp ε α → Option α
  | .ok a => some a
  | _ => none

def Within : ℕ → Task Req Resp ε α → Prop
  | _, .ok _ => True
  | _, .err _ => True
  | _, .emit _ _ => True
  | 0, .call _ _ => False
  | n + 1, .call _ k => ∀ x, Within n (k x)

theorem within_ok (n : ℕ) (a : α) : Within n (.ok a : Task Req Resp ε α) := by cases n <;> trivial

theorem within_err (n : ℕ) (e : ε) : Within n (.err e : Task Req Resp ε α) := by cases n <;> trivial

theorem Within.mono {p : Task Req Resp ε α} {m n : ℕ} (h : Within m p) (hle : m ≤ n) : Within n p := by
  induction p generalizing m n with
  | ok a => exact within_ok n a
  | err e => exact within_err n e
  | emit o => exact o.elim
  | call r k ih =>
    cases m with
    | zero => exact h.elim
    | succ m =>
      obtain ⟨n,rfl⟩ : ∃ n', n = n' + 1 := ⟨n - 1,by omega⟩
      exact fun x => ih x (h x) (Nat.le_of_succ_le_succ hle)

theorem Within.consumes {p q : Task Req Resp ε α} {tr : List ((r : Req) × Resp r)} {os : List Empty} {n : ℕ}
    (h : Consumes p tr os q) (hp : Within n p) : tr.length ≤ n := by
  induction h generalizing n with
  | refl p => exact Nat.zero_le n
  | @emit o => exact o.elim
  | call _ ih =>
    cases n with
    | zero => exact hp.elim
    | succ n => exact Nat.succ_le_succ (ih (hp _))

theorem returned_or_pending (p : Task Req Resp ε α) : (∃ r, p = .ofResult r) ∨ ∃ r, pending p = [r] := by
  cases p with
  | ok a => exact .inl ⟨.ok a,rfl⟩
  | err e => exact .inl ⟨.error e,rfl⟩
  | emit o => exact o.elim
  | call r k => exact .inr ⟨r,rfl⟩

section Runs
variable [DecidableEq ι]

/-- `serve` tells which replies may arrive. -/
inductive Run (serve : (r : Req) → Resp r → Prop) (p : ι → Task Req Resp ε α) :
    List (Arrival ι Req Resp) → (ι → Task Req Resp ε α) → Prop
  | start : Run serve p [] p
  | arrive {es : List (Arrival ι Req Resp)} {tasks : ι → Task Req Resp ε α} {i : ι} {r : Req}
      {k : Resp r → Task Req Resp ε α} {x : Resp r} (h : Run serve p es tasks) (hi : tasks i = .call r k)
      (hx : serve r x) : Run serve p (es ++ [⟨i,r,x⟩]) (Function.update tasks i (k x))

def answers (es : List (Arrival ι Req Resp)) (i : ι) : List ((r : Req) × Resp r) :=
  (es.filter (fun e => e.task = i)).map Arrival.answer

/-- What a task has asked for: the requests that were answered, and the one under way. -/
def sent (es : List (Arrival ι Req Resp)) (tasks : ι → Task Req Resp ε α) (i : ι) : List Req :=
  (answers es i).map Sigma.fst ++ pending (tasks i)

variable {serve : (r : Req) → Resp r → Prop} {p tasks : ι → Task Req Resp ε α} {es : List (Arrival ι Req Resp)}

theorem answers_snoc (e : Arrival ι Req Resp) (i : ι) :
    answers (es ++ [e]) i = answers es i ++ if e.task = i then [e.answer] else [] := by
  rw [answers, List.filter_append, List.map_append]
  by_cases he : e.task = i
  · simp [answers, he]
  · simp [answers, he]

/-- Each task goes on by itself, as its own replies make it. -/
theorem Run.consumes (h : Run serve p es tasks) (i : ι) : Consumes (p i) (answers es i) [] (tasks i) := by
  induction h with
  | start => exact .refl _
  | @arrive es tasks j r k x _ hi _ ih =>
    rw [answers_snoc]
    by_cases hj : j = i
    · subst hj
      rw [hi] at ih
      rw [if_pos rfl, Function.update_self]
      exact ih.snoc_call x
    · rw [if_neg hj, List.append_nil, Function.update_of_ne (Ne.symm hj)]
      exact ih

theorem Run.serves (h : Run serve p es tasks) : ∀ e ∈ es, serve e.req e.reply := by
  induction h with
  | start => simp
  | arrive _ _ hx ih =>
    intro e he
    rcases List.mem_append.mp he with he | he
    · exact ih e he
    · rw [List.mem_singleton] at he
      subst he
      exact hx

theorem mem_answers {x : (r : Req) × Resp r} {i : ι} :
    x ∈ answers es i ↔ ∃ e ∈ es, e.task = i ∧ e.answer = x := by
  simp [answers, and_assoc]

theorem sum_answers [Fintype ι] (es : List (Arrival ι Req Resp)) :
    es.length = ∑ i, (answers es i).length := by
  induction es using List.reverseRecOn with
  | nil => simp [answers]
  | append_singleton es e ih =>
    have hone : ∑ i, (if e.task = i then [e.answer] else []).length = 1 := by
      simp [apply_ite List.length, Finset.sum_ite_eq]
    simp only [answers_snoc, List.length_append, Finset.sum_add_distrib, hone, ← ih]
    rfl

/-- Tasks of boundedly many requests come to their ends. -/
theorem Run.length_le [Fintype ι] (h : Run serve p es tasks) {n : ι → ℕ} (hp : ∀ i, Within (n i) (p i)) :
    es.length ≤ ∑ i, n i := by
  rw [sum_answers es]
  apply Finset.sum_le_sum
  exact fun i _ => (hp i).consumes (h.consumes i)

/-- Where every request that comes up can be answered in a good way, a run goes on to the
ends of all tasks on good replies. -/
theorem Run.completes [Fintype ι] (Good : (r : Req) → Resp r → Prop) {n : ι → ℕ} (hp : ∀ i, Within (n i) (p i))
    (hready : ∀ es tasks, Run serve p es tasks → ∀ i r k, tasks i = .call r k → ∃ x, serve r x ∧ Good r x)
    (h : Run serve p es tasks) (hgood : ∀ e ∈ es, Good e.req e.reply) :
    ∃ es' tasks', Run serve p es' tasks' ∧ (∀ i, ∃ r, tasks' i = .ofResult r) ∧ ∀ e ∈ es', Good e.req e.reply := by
  induction hleft : ∑ i, n i - es.length using Nat.strong_induction_on generalizing es tasks with
  | h left ih =>
    by_cases hdone : ∀ i, ∃ r, tasks i = .ofResult r
    · exact ⟨es,tasks,h,hdone,hgood⟩
    obtain ⟨i,hi⟩ := not_forall.mp hdone
    obtain ⟨r,k,hcall⟩ : ∃ r k, tasks i = .call r k := by
      cases htask : tasks i with
      | ok a => exact absurd ⟨.ok a,htask⟩ hi
      | err e => exact absurd ⟨.error e,htask⟩ hi
      | emit o => exact o.elim
      | call r k => exact ⟨r,k,rfl⟩
    obtain ⟨x,hx,hgoodx⟩ := hready es tasks h i r k hcall
    have hnext := h.arrive hcall hx
    have hbound := hnext.length_le hp
    rw [List.length_append, List.length_singleton] at hbound
    refine ih _ ?_ hnext ?_ rfl
    · rw [List.length_append, List.length_singleton]
      omega
    · exact List.forall_mem_append.mpr ⟨hgood,List.forall_mem_singleton.mpr hgoodx⟩

end Runs

end SlatedbCloudflare.Tasks
