import Mathlib.Data.List.Basic

/-! # Texts split at a separator -/
namespace SlatedbCloudflare.Segments
variable {α : Type} [DecidableEq α] {sep : α}

omit [DecidableEq α] in
theorem intercalate_append {a b : List (List α)} (ha : a ≠ []) (hb : b ≠ []) :
    [sep].intercalate (a ++ b) = [sep].intercalate a ++ sep :: [sep].intercalate b := by
  induction a with
  | nil => exact absurd rfl ha
  | cons x a ih =>
    cases a with
    | nil => simp [List.intercalate_cons_of_ne_nil hb]
    | cons y a =>
      have hrest := ih (List.cons_ne_nil y a)
      rw [List.cons_append, List.cons_append, List.intercalate_cons_cons, List.intercalate_cons_cons,
        ← List.cons_append, hrest]
      simp

/-- The segments of a text continue those of another exactly if it continues the
other with a separator. -/
theorem splitOn_continues_iff {p k : List α} :
    (∃ s, s ≠ [] ∧ k.splitOn sep = p.splitOn sep ++ s) ↔ ∃ rest, k = p ++ sep :: rest := by
  constructor
  · rintro ⟨s,hs,hk⟩
    have hjoined := congrArg [sep].intercalate hk
    rw [intercalate_append (List.splitOn_ne_nil sep p) hs, List.intercalate_splitOn,
      List.intercalate_splitOn] at hjoined
    exact ⟨_,hjoined⟩
  · rintro ⟨rest,rfl⟩
    exact ⟨_,List.splitOn_ne_nil sep rest,List.splitOn_append_cons_self p rest⟩

theorem length_splitOn (l : List α) : (l.splitOn sep).length = l.count sep + 1 := by
  induction l with
  | nil => simp
  | cons x l ih =>
    rw [List.splitOn_cons_eq_if_modifyHead, List.count_cons]
    by_cases hx : x = sep
    · simp [hx, ih]
    · simp [hx, ih]

theorem notMem_of_mem_splitOn {l s : List α} (h : s ∈ l.splitOn sep) : sep ∉ s := by
  induction l generalizing s with
  | nil =>
    rw [List.splitOn_nil, List.mem_singleton] at h
    subst h
    exact List.not_mem_nil
  | cons x l ih =>
    rw [List.splitOn_cons_eq_if_modifyHead] at h
    by_cases hx : x = sep
    · simp only [hx, beq_self_eq_true, ↓reduceIte, List.mem_cons] at h
      rcases h with rfl | h
      · exact List.not_mem_nil
      · exact ih h
    · simp only [beq_iff_eq, hx, ↓reduceIte] at h
      cases hl : l.splitOn sep with
      | nil => exact absurd hl (List.splitOn_ne_nil sep l)
      | cons first rest =>
        rw [hl, List.modifyHead_cons, List.mem_cons] at h
        rcases h with rfl | h
        · intro hmem
          rcases List.mem_cons.mp hmem with heq | hmem
          · exact hx heq.symm
          · exact ih (by rw [hl]; exact List.mem_cons_self) hmem
        · exact ih (by rw [hl]; exact List.mem_cons_of_mem _ h)

end SlatedbCloudflare.Segments
