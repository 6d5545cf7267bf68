import Mathlib.Algebra.Group.Defs
import Mathlib.Data.List.Forall2

/-! # Sequences and traversals that may fail

A sequence of fallible steps succeeds when every step does, and `mapM` over a
list succeeds with the list of the elementwise results.
-/
namespace SlatedbCloudflare.Traversals
variable {α β ε : Type}

theorem bind_ok {x : Except ε α} {f : α → Except ε β} {b : β} :
    (x >>= f) = .ok b ↔ ∃ a, x = .ok a ∧ f a = .ok b := by
  cases x with
  | error e => simp [bind, Except.bind]
  | ok a => simp [bind, Except.bind]

theorem bind_error {x : Except ε α} {f : α → Except ε β} {e : ε} :
    (x >>= f) = .error e ↔ x = .error e ∨ ∃ a, x = .ok a ∧ f a = .error e := by
  cases x with
  | error e => simp [bind, Except.bind]
  | ok a => simp [bind, Except.bind]

theorem toOption_some {x : Except ε α} {a : α} : x.toOption = some a ↔ x = .ok a := by
  cases x with
  | error e => simp [Except.toOption]
  | ok b => simp [Except.toOption]

theorem mapM_option {f : α → Option β} {l : List α} {l' : List β} :
    l.mapM f = some l' ↔ List.Forall₂ (fun x y => f x = some y) l l' := by
  induction l generalizing l' with
  | nil => simp [eq_comm]
  | cons x l ih =>
    simp only [List.mapM_cons, Option.bind_eq_bind, Option.pure_def, Option.bind_eq_some_iff,
      Option.some.injEq, List.forall₂_cons_left_iff]
    constructor
    · rintro ⟨y,hy,ys,hys,rfl⟩
      exact ⟨y,ys,hy,ih.mp hys,rfl⟩
    · rintro ⟨y,ys,hy,hys,rfl⟩
      exact ⟨y,hy,ys,ih.mpr hys,rfl⟩

theorem mapM_except {f : α → Except ε β} {l : List α} {l' : List β} :
    l.mapM f = .ok l' ↔ List.Forall₂ (fun x y => f x = .ok y) l l' := by
  induction l generalizing l' with
  | nil => simp [pure, Except.pure, eq_comm]
  | cons x l ih =>
    rw [List.mapM_cons, List.forall₂_cons_left_iff]
    cases hx : f x with
    | error e => simp [bind, Except.bind]
    | ok y =>
      cases hl : l.mapM f with
      | error e =>
        have hnone : ∀ ys, ¬ List.Forall₂ (fun x y => f x = .ok y) l ys := by
          intro ys hys
          rw [ih.mpr hys] at hl
          cases hl
        simp [bind, Except.bind, hnone]
      | ok ys =>
        simp only [bind, Except.bind, pure, Except.pure, Except.ok.injEq]
        constructor
        · rintro rfl
          exact ⟨y,ys,rfl,ih.mp hl,rfl⟩
        · rintro ⟨y',ys',rfl,hys,rfl⟩
          rw [ih.mpr hys] at hl
          cases hl
          rfl

theorem foldlM_error {f : β → α → Except ε β} {bad : α → Prop}
    (hf : ∀ b x, (∃ e, f b x = .error e) ↔ bad x) (l : List α) (b : β) :
    (∃ e, l.foldlM f b = .error e) ↔ ∃ x ∈ l, bad x := by
  induction l generalizing b with
  | nil => simp [pure, Except.pure]
  | cons x l ih =>
    rw [List.foldlM_cons, List.exists_mem_cons_iff, ← hf b x]
    cases hx : f b x with
    | error e => simp [bind, Except.bind]
    | ok c =>
      rw [← ih c]
      simp [bind, Except.bind]

/-- Each step of the loop adds to what is measured. -/
theorem foldlM_sum {M : Type*} [AddMonoid M] {f : β → α → Except ε β} (measure : β → M) (weight : α → M)
    (hf : ∀ b x c, f b x = .ok c → measure c = measure b + weight x) {l : List α} {b c : β}
    (h : l.foldlM f b = .ok c) : measure c = measure b + (l.map weight).sum := by
  induction l generalizing b with
  | nil =>
    cases h
    rw [List.map_nil, List.sum_nil, add_zero]
  | cons x l ih =>
    rw [List.foldlM_cons] at h
    obtain ⟨d,hd,h⟩ := bind_ok.mp h
    rw [ih h, hf b x d hd, List.map_cons, List.sum_cons, add_assoc]

theorem forall₂_mem {r : α → β → Prop} {l : List α} {l' : List β} (h : List.Forall₂ r l l') :
    ∀ y ∈ l', ∃ x ∈ l, r x y := by
  induction h with
  | nil => simp
  | cons hr _ ih =>
    intro y hy
    rcases List.mem_cons.mp hy with rfl | hy
    · exact ⟨_,List.mem_cons_self,hr⟩
    · obtain ⟨x,hx,hxy⟩ := ih y hy
      exact ⟨x,List.mem_cons_of_mem _ hx,hxy⟩

theorem lookup_distinct [DecidableEq α] {entries : List (α × β)} (hd : (entries.map Prod.fst).Nodup) {e : α × β}
    (he : e ∈ entries) : entries.lookup e.1 = some e.2 := by
  induction entries with
  | nil => cases he
  | cons x entries ih =>
    obtain ⟨hx,hd⟩ := List.nodup_cons.mp hd
    rw [List.lookup_cons]
    rcases List.mem_cons.mp he with rfl | he
    · simp
    · have hne : e.1 ≠ x.1 := fun h => hx (h ▸ List.mem_map_of_mem he)
      simpa [beq_false_of_ne hne] using ih hd he

theorem exists_first {P : α → Prop} {l : List α} (h : ∃ x ∈ l, P x) :
    ∃ pre x post, l = pre ++ x :: post ∧ P x ∧ ∀ y ∈ pre, ¬ P y := by
  induction l with
  | nil => simp at h
  | cons a l ih =>
    by_cases ha : P a
    · exact ⟨[],a,l,rfl,ha,by simp⟩
    · have hl : ∃ x ∈ l, P x := by simpa [ha] using h
      obtain ⟨pre,x,post,rfl,hx,hpre⟩ := ih hl
      exact ⟨a :: pre,x,post,rfl,hx,by simpa [ha] using hpre⟩

/-- In a finite list, nothing is passed on to ever larger elements. -/
theorem no_growth {S : List α} {bad : α → Prop} {f : α → α} {size : α → ℕ}
    (h : ∀ x ∈ S, bad x → f x ∈ S ∧ bad (f x) ∧ size x < size (f x)) : ∀ x ∈ S, ¬ bad x := by
  have hbound : ∀ x ∈ S, size x ≤ (S.map size).sum := by
    intro x hx
    obtain ⟨a,c,rfl⟩ := List.append_of_mem hx
    simp only [List.map_append, List.map_cons, List.sum_append, List.sum_cons]
    omega
  have hlarge : ∀ n, ∀ x ∈ S, bad x → n < (S.map size).sum + 1 - size x := by
    intro n
    induction n with
    | zero =>
      intro x hx _
      have hx := hbound x hx
      omega
    | succ n ih =>
      intro x hx hbad
      obtain ⟨hmem,hbad',hlt⟩ := h x hx hbad
      have hn := ih (f x) hmem hbad'
      omega
  intro x hx hbad
  have hn := hlarge ((S.map size).sum + 1) x hx hbad
  omega

/-- Consecutive pieces of `n` elements, the last one of what is left. -/
def chunks (n : ℕ) : List α → List (List α)
  | [] => []
  | x :: l => (x :: l.take (n - 1)) :: chunks n (l.drop (n - 1))
termination_by l => l.length
decreasing_by
  simp only [List.length_drop, List.length_cons]
  omega

theorem mem_chunks {n : ℕ} (hn : 0 < n) {l : List α} {i : ℕ} {x : α} :
    (∃ c, (chunks n l)[i]? = some c ∧ x ∈ c) ↔ ∃ m, l[m]? = some x ∧ m / n = i := by
  fun_induction chunks n l generalizing i with
  | case1 => simp
  | case2 y l ih =>
    have htake : y :: l.take (n - 1) = (y :: l).take n := by
      obtain ⟨k,rfl⟩ : ∃ k, n = k + 1 := ⟨n - 1,by omega⟩
      rfl
    cases i with
    | zero =>
      simp only [List.getElem?_cons_zero, Option.some.injEq, exists_eq_left', htake,
        List.mem_iff_getElem?, List.getElem?_take, Nat.div_eq_zero_iff_lt hn]
      constructor
      · rintro ⟨m,hm⟩
        split at hm
        next hlt => exact ⟨m,hm,hlt⟩
        next => cases hm
      · rintro ⟨m,hm,hlt⟩
        exact ⟨m,by rw [if_pos hlt, hm]⟩
    | succ j =>
      rw [List.getElem?_cons_succ, ih]
      have hdrop : ∀ m, (l.drop (n - 1))[m]? = (y :: l)[m + n]? := by
        intro m
        obtain ⟨k,rfl⟩ : ∃ k, n = k + 1 := ⟨n - 1,by omega⟩
        rw [List.getElem?_drop, ← Nat.add_assoc, List.getElem?_cons_succ, Nat.add_sub_cancel, Nat.add_comm]
      constructor
      · rintro ⟨m,hm,rfl⟩
        exact ⟨m + n,by rw [← hdrop, hm],Nat.add_div_right m hn⟩
      · rintro ⟨m,hm,hdiv⟩
        have hle : n ≤ m := by
          by_contra hlt
          rw [Nat.div_eq_of_lt (by omega)] at hdiv
          omega
        refine ⟨m - n,by rw [hdrop, Nat.sub_add_cancel hle, hm],?_⟩
        have hsum := Nat.add_div_right (m - n) hn
        rw [Nat.sub_add_cancel hle] at hsum
        omega

theorem chunks_map (n : ℕ) (f : α → β) (l : List α) :
    chunks n (l.map f) = (chunks n l).map (List.map f) := by
  fun_induction chunks n l with
  | case1 => simp [chunks]
  | case2 x l ih =>
    rw [List.map_cons, chunks, ← List.map_take, ← List.map_drop, ih]
    rfl

end SlatedbCloudflare.Traversals
