import SlatedbCloudflare.Library.Programs

/-! # Programs that go on side by side

A join polls several programs until all have returned or one has failed. A schedule
tells which one moves next; the requests that are made are those of the programs,
interleaved.
-/
namespace SlatedbCloudflare.Joins
open Programs

section Interleavings
variable {κ α β : Type} [DecidableEq κ]

/-- A merge of sequences that keeps the order of each. -/
inductive Interleaves : (κ → List α) → List α → Prop
  | nil : Interleaves (fun _ => []) []
  | cons {each : κ → List α} {l : List α} (i : κ) (x : α) (h : Interleaves each l) :
      Interleaves (Function.update each i (x :: each i)) (x :: l)

variable {each : κ → List α} {l : List α}

theorem Interleaves.mem (h : Interleaves each l) {x : α} : x ∈ l ↔ ∃ i, x ∈ each i := by
  induction h with
  | nil => simp
  | @cons each l i y _ ih =>
    rw [List.mem_cons, ih]
    constructor
    · rintro (rfl | ⟨j,hj⟩)
      · exact ⟨i,by simp⟩
      · by_cases hji : j = i
        · subst hji
          exact ⟨j,by simp [hj]⟩
        · exact ⟨j,by simpa [Function.update_of_ne hji] using hj⟩
    · rintro ⟨j,hj⟩
      by_cases hji : j = i
      · subst hji
        rw [Function.update_self, List.mem_cons] at hj
        exact hj.imp id fun h => ⟨j,h⟩
      · rw [Function.update_of_ne hji] at hj
        exact .inr ⟨j,hj⟩

theorem Interleaves.filterMap (h : Interleaves each l) (f : α → Option β) :
    Interleaves (fun i => (each i).filterMap f) (l.filterMap f) := by
  induction h with
  | nil => exact .nil
  | @cons each l i x _ ih =>
    cases hx : f x with
    | none =>
      have heach : (fun j => (Function.update each i (x :: each i) j).filterMap f) = fun j => (each j).filterMap f := by
        funext j
        by_cases hji : j = i
        · subst hji
          rw [Function.update_self, List.filterMap_cons_none hx]
        · rw [Function.update_of_ne hji]
      rw [heach, List.filterMap_cons_none hx]
      exact ih
    | some y =>
      have heach : (fun j => (Function.update each i (x :: each i) j).filterMap f) =
          Function.update (fun j => (each j).filterMap f) i (y :: (each i).filterMap f) := by
        funext j
        by_cases hji : j = i
        · subst hji
          rw [Function.update_self, Function.update_self, List.filterMap_cons_some hx]
        · rw [Function.update_of_ne hji, Function.update_of_ne hji]
      rw [heach, List.filterMap_cons_some hx]
      exact ih.cons i y

/-- An interleaving of images is the image of an interleaving. -/
theorem Interleaves.unmap {each : κ → List β} {f : α → β} (h : Interleaves each (l.map f)) :
    ∃ each', Interleaves each' l ∧ ∀ i, (each' i).map f = each i := by
  generalize hl : l.map f = l' at h
  induction h generalizing l with
  | nil =>
    cases List.map_eq_nil_iff.mp hl
    exact ⟨_,.nil,fun _ => rfl⟩
  | @cons each l' i y _ ih =>
    obtain ⟨x,rest,rfl,rfl,hrest⟩ := List.map_eq_cons_iff.mp hl
    obtain ⟨each',hinter,heach⟩ := ih hrest
    refine ⟨_,hinter.cons i x,fun j => ?_⟩
    by_cases hji : j = i
    · subst hji
      rw [Function.update_self, Function.update_self, List.map_cons, heach]
    · rw [Function.update_of_ne hji, Function.update_of_ne hji]
      exact heach j

theorem Interleaves.append_left (h : Interleaves each l) (i : κ) (first : List α) :
    Interleaves (Function.update each i (first ++ each i)) (first ++ l) := by
  induction first with
  | nil =>
    rw [List.nil_append, List.nil_append, Function.update_eq_self]
    exact h
  | cons x first ih =>
    have hcons := ih.cons i x
    rw [Function.update_self, Function.update_idem] at hcons
    exact hcons

theorem Interleaves.rename {each : ℕ → List α} (h : Interleaves each l) :
    Interleaves (fun i => if i = 0 then [] else each (i - 1)) l := by
  induction h with
  | nil =>
    have heach : (fun i : ℕ => if i = 0 then [] else (fun _ => []) (i - 1)) = fun _ => ([] : List α) := by
      funext i
      simp
    rw [heach]
    exact .nil
  | @cons each l i x _ ih =>
    have heach : (fun j : ℕ => if j = 0 then [] else Function.update each i (x :: each i) (j - 1)) =
        Function.update (fun j : ℕ => if j = 0 then [] else each (j - 1)) (i + 1) (x :: each i) := by
      funext j
      by_cases hj : j = i + 1
      · subst hj
        simp
      · rw [Function.update_of_ne hj]
        by_cases hzero : j = 0
        · rw [if_pos hzero, if_pos hzero]
        · have hne : j - 1 ≠ i := by omega
          rw [if_neg hzero, if_neg hzero, Function.update_of_ne hne]
    rw [heach]
    have hcons := ih.cons (i + 1) x
    rw [if_neg (Nat.succ_ne_zero i), Nat.add_sub_cancel] at hcons
    exact hcons

end Interleavings

variable {Req : Type} {Resp : Req → Type} {Out ε α : Type}

def inOrder : List (Prog Req Resp Out ε α) → Prog Req Resp Out ε (List α)
  | [] => pure []
  | p :: ps => do
    let a ← p
    let rest ← inOrder ps
    pure (a :: rest)

/-- The program at the head of the schedule moves next, and ends the join if it has
failed. What remains when the schedule is over is done in order. -/
def joinAll : List ℕ → List (Prog Req Resp Out ε α) → Prog Req Resp Out ε (List α)
  | [], ps => inOrder ps
  | i :: schedule, ps =>
    match ps[i]? with
    | none => joinAll schedule ps
    | some (.ok _) => joinAll schedule ps
    | some (.err e) => .err e
    | some (.emit o p) => .emit o (joinAll schedule (ps.set i p))
    | some (.call r k) => .call r (fun x => joinAll schedule (ps.set i (k x)))

section Strictness
variable {Good : (r : Req) × Resp r → Prop} {ps : List (Prog Req Resp Out ε α)}

theorem inOrder_fails (h : ∃ p ∈ ps, p.Fails) : (inOrder ps).Fails := by
  induction ps with
  | nil =>
    obtain ⟨p,hp,_⟩ := h
    cases hp
  | cons p ps ih =>
    by_cases hp : p.Fails
    · exact hp.bind
    · obtain ⟨q,hq,hf⟩ := h
      rcases List.mem_cons.mp hq with rfl | hq
      · exact absurd hf hp
      · exact .of_bind fun _ => (ih ⟨q,hq,hf⟩).bind

theorem joinAll_fails (schedule : List ℕ) {i : ℕ} {p : Prog Req Resp Out ε α} (hi : ps[i]? = some p) (hp : p.Fails) :
    (joinAll schedule ps).Fails := by
  induction schedule generalizing ps p with
  | nil => exact inOrder_fails ⟨p,List.mem_of_getElem? hi,hp⟩
  | cons j schedule ih =>
    have hset : ∀ q, (j = i → q.Fails) → (joinAll schedule (ps.set j q)).Fails := by
      intro q hq
      by_cases hj : j = i
      · subst hj
        have hlt := (List.getElem?_eq_some_iff.mp hi).1
        exact ih (List.getElem?_set_self hlt) (hq rfl)
      · exact ih ((List.getElem?_set_ne hj).trans hi) hp
    unfold joinAll
    split
    · exact ih hi hp
    · exact ih hi hp
    · trivial
    · rename_i o q hj
      apply hset
      rintro rfl
      cases hj.symm.trans hi
      exact hp
    · rename_i r k hj
      intro x
      apply hset
      rintro rfl
      cases hj.symm.trans hi
      exact hp x

theorem inOrder_strict (h : ∀ p ∈ ps, p.Strict Good) : (inOrder ps).Strict Good := by
  induction ps with
  | nil => trivial
  | cons p ps ih =>
    obtain ⟨hp,hps⟩ := List.forall_mem_cons.mp h
    exact hp.bind fun _ => (ih hps).bind fun _ => trivial

/-- Programs that succeed exactly if all their replies are good join to one. -/
theorem joinAll_strict (schedule : List ℕ) (h : ∀ p ∈ ps, p.Strict Good) : (joinAll schedule ps).Strict Good := by
  induction schedule generalizing ps with
  | nil => exact inOrder_strict h
  | cons i schedule ih =>
    have hset : ∀ {q : Prog Req Resp Out ε α}, q.Strict Good → (joinAll schedule (ps.set i q)).Strict Good := by
      intro q hq
      apply ih
      intro p hp
      rcases List.mem_or_eq_of_mem_set hp with hp | rfl
      · exact h p hp
      · exact hq
    unfold joinAll
    split
    · exact ih h
    · exact ih h
    · rename_i e hi
      exact h _ (List.mem_of_getElem? hi)
    · rename_i o p hi
      have hp : (Prog.emit o p).Strict Good := h _ (List.mem_of_getElem? hi)
      exact hset hp
    · rename_i r k hi
      have hk : (Prog.call r k).Strict Good := h _ (List.mem_of_getElem? hi)
      have hlt := (List.getElem?_eq_some_iff.mp hi).1
      exact fun x => ⟨fun hx => hset ((hk x).1 hx),fun hx => joinAll_fails schedule (List.getElem?_set_self hlt) ((hk x).2 hx)⟩

end Strictness

section Rules
variable {ps : List (Prog Req Resp Out ε α)} {schedule : List ℕ} {tr : List ((r : Req) × Resp r)} {os : List Out}

theorem asks_set {P : Req → Prop} {p : Prog Req Resp Out ε α} (h : ∀ p ∈ ps, p.Asks P) (hp : p.Asks P) (i : ℕ) :
    ∀ q ∈ ps.set i p, q.Asks P := by
  intro q hq
  rcases List.mem_or_eq_of_mem_set hq with hq | rfl
  · exact h q hq
  · exact hp

theorem inOrder_asks {P : Req → Prop} (h : ∀ p ∈ ps, p.Asks P) : (inOrder ps).Asks P := by
  induction ps with
  | nil => trivial
  | cons p ps ih =>
    have hrest := ih fun q hq => h q (List.mem_cons_of_mem _ hq)
    exact (h p List.mem_cons_self).bind fun _ => hrest.bind fun _ => trivial

theorem joinAll_asks {P : Req → Prop} (schedule : List ℕ) (h : ∀ p ∈ ps, p.Asks P) : (joinAll schedule ps).Asks P := by
  induction schedule generalizing ps with
  | nil => exact inOrder_asks h
  | cons i schedule ih =>
    unfold joinAll
    cases hi : ps[i]? with
    | none => exact ih h
    | some p =>
      have hp := h p (List.mem_of_getElem? hi)
      cases p with
      | ok a => exact ih h
      | err e => trivial
      | emit o p =>
        have hnext : p.Asks P := hp
        exact ih (asks_set h hnext i)
      | call r k => exact ⟨hp.1,fun x => ih (asks_set h (hp.2 x) i)⟩

def Each (Q : ℕ → Prog Req Resp Out ε α → List ((r : Req) × Resp r) → Prop) (ps : List (Prog Req Resp Out ε α))
    (each : ℕ → List ((r : Req) × Resp r)) : Prop :=
  ∀ i, match ps[i]? with
    | some p => Q i p (each i)
    | none => each i = []

def Reached (ps : List (Prog Req Resp Out ε α)) (each : ℕ → List ((r : Req) × Resp r)) : Prop :=
  Each (fun _ p tr => ∃ os q, Consumes p tr os q) ps each

/-- The replies of each program, all of which have returned. -/
structure Joined (ps : List (Prog Req Resp Out ε α)) (each : ℕ → List ((r : Req) × Resp r)) (as : List α) : Prop where
  length : as.length = ps.length
  returned : Each (fun i p tr => ∃ os a, as[i]? = some a ∧ Returns p tr os (.ok a)) ps each

variable {Q Q' : ℕ → Prog Req Resp Out ε α → List ((r : Req) × Resp r) → Prop}
  {each : ℕ → List ((r : Req) × Resp r)}

theorem Each.imp (h : Each Q ps each) (himp : ∀ i p tr, Q i p tr → Q' i p tr) : Each Q' ps each := by
  intro i
  have hi := h i
  cases hp : ps[i]? with
  | none =>
    rw [hp] at hi
    exact hi
  | some p =>
    rw [hp] at hi
    exact himp i p _ hi

theorem Each.at {i : ℕ} {p : Prog Req Resp Out ε α} (h : Each Q ps each) (hi : ps[i]? = some p) : Q i p (each i) := by
  have hQ := h i
  rw [hi] at hQ
  exact hQ

theorem Each.beyond {i : ℕ} (h : Each Q ps each) (hi : ps[i]? = none) : each i = [] := by
  have hQ := h i
  rw [hi] at hQ
  exact hQ

theorem Each.moved {i : ℕ} {p p' : Prog Req Resp Out ε α} (first : List ((r : Req) × Resp r))
    (h : Each Q (ps.set i p') each) (hi : ps[i]? = some p) (hQ : ∀ tr, Q i p' tr → Q i p (first ++ tr)) :
    Each Q ps (Function.update each i (first ++ each i)) := by
  intro j
  have hj := h j
  by_cases hji : j = i
  · subst hji
    obtain ⟨hlt,_⟩ := List.getElem?_eq_some_iff.mp hi
    rw [List.getElem?_set_self hlt] at hj
    rw [hi, Function.update_self]
    exact hQ _ hj
  · rw [List.getElem?_set_ne (Ne.symm hji)] at hj
    rw [Function.update_of_ne hji]
    exact hj

theorem Each.cons {p : Prog Req Resp Out ε α} {first : List ((r : Req) × Resp r)} (hp : Q 0 p first)
    (h : Each (fun i => Q (i + 1)) ps each) :
    Each Q (p :: ps) (Function.update (fun i => if i = 0 then [] else each (i - 1)) 0 (first ++ [])) := by
  intro i
  cases i with
  | zero =>
    rw [List.getElem?_cons_zero, Function.update_self, List.append_nil]
    exact hp
  | succ i =>
    rw [List.getElem?_cons_succ, Function.update_of_ne (Nat.succ_ne_zero i)]
    exact h i

theorem reached_nil (ps : List (Prog Req Resp Out ε α)) : Reached ps fun _ => [] := by
  intro i
  cases ps[i]? with
  | none => exact rfl
  | some p => exact ⟨[],p,.refl p⟩

theorem Reached.cons {p q : Prog Req Resp Out ε α} {first : List ((r : Req) × Resp r)} (hp : Consumes p first os q)
    (h : Reached ps each) :
    Reached (p :: ps) (Function.update (fun i => if i = 0 then [] else each (i - 1)) 0 (first ++ [])) :=
  Each.cons ⟨os,q,hp⟩ h

theorem Joined.reached {as : List α} (h : Joined ps each as) : Reached ps each := by
  apply h.returned.imp
  rintro _ p tr ⟨os,a,_,hr⟩
  exact ⟨os,_,hr⟩

theorem consumes_inOrder {q : Prog Req Resp Out ε (List α)} (h : Consumes (inOrder ps) tr os q) :
    ∃ each, Interleaves each tr ∧ Reached ps each := by
  induction ps generalizing tr os q with
  | nil =>
    cases h
    exact ⟨_,.nil,reached_nil []⟩
  | cons p ps ih =>
    rcases Returns.consumes_bind h with ⟨p',hp,_⟩ | ⟨a,tr₁,tr₂,os₁,os₂,rfl,_,hp,hrest⟩
    · -- the first program is under way, and the others have not begun
      have hfirst := (Interleaves.nil (κ := ℕ)).rename.append_left 0 tr
      rw [List.append_nil] at hfirst
      exact ⟨_,hfirst,(reached_nil ps).cons hp⟩
    · obtain ⟨q',hq⟩ : ∃ q', Consumes (inOrder ps) tr₂ os₂ q' := by
        rcases Returns.consumes_bind hrest with ⟨q',hq,_⟩ | ⟨as,tr₃,tr₄,os₃,os₄,rfl,rfl,hq,hend⟩
        · exact ⟨q',hq⟩
        · cases hend
          rw [List.append_nil, List.append_nil]
          exact ⟨_,hq⟩
      obtain ⟨each,hinter,hreached⟩ := ih hq
      exact ⟨_,hinter.rename.append_left 0 tr₁,hreached.cons hp⟩

theorem returns_inOrder {as : List α} (h : Returns (inOrder ps) tr os (.ok as)) :
    ∃ each, Interleaves each tr ∧ Joined ps each as := by
  induction ps generalizing tr os as with
  | nil =>
    obtain ⟨rfl,_,has⟩ := h.of_ok
    cases has
    exact ⟨_,.nil,rfl,fun _ => rfl⟩
  | cons p ps ih =>
    obtain ⟨a,tr₁,tr₂,os₁,os₂,rfl,_,hp,hrest⟩ := h.of_bind_ok
    obtain ⟨rest,tr₃,tr₄,os₃,os₄,rfl,_,hps,hend⟩ := hrest.of_bind_ok
    obtain ⟨rfl,_,has⟩ := hend.of_ok
    cases has
    rw [List.append_nil]
    obtain ⟨each,hinter,hjoined⟩ := ih hps
    refine ⟨_,hinter.rename.append_left 0 tr₁,?_,Each.cons ⟨os₁,a,rfl,hp⟩ hjoined.returned⟩
    rw [List.length_cons, hjoined.length, List.length_cons]

/-- Under every schedule the replies to a join are those to its programs, interleaved. -/
theorem consumes_joinAll {q : Prog Req Resp Out ε (List α)} (h : Consumes (joinAll schedule ps) tr os q) :
    ∃ each, Interleaves each tr ∧ Reached ps each := by
  induction schedule generalizing ps tr os q with
  | nil => exact consumes_inOrder h
  | cons i schedule ih =>
    unfold joinAll at h
    split at h
    · exact ih h
    · exact ih h
    · cases h
      exact ⟨_,.nil,reached_nil ps⟩
    · rename_i o p hi
      cases h with
      | refl => exact ⟨_,.nil,reached_nil ps⟩
      | emit h =>
        obtain ⟨each,hinter,hreached⟩ := ih h
        refine ⟨_,hinter.append_left i [],hreached.moved [] hi ?_⟩
        rintro tr ⟨os,q,hq⟩
        exact ⟨o :: os,q,.emit hq⟩
    · rename_i r k hi
      cases h with
      | refl => exact ⟨_,.nil,reached_nil ps⟩
      | @call _ x _ _ _ _ h =>
        obtain ⟨each,hinter,hreached⟩ := ih h
        refine ⟨_,hinter.append_left i [⟨r,x⟩],hreached.moved [⟨r,x⟩] hi ?_⟩
        rintro tr ⟨os,q,hq⟩
        exact ⟨os,q,.call hq⟩

/-- A join that succeeds has the results of its programs in order. -/
theorem returns_joinAll {as : List α} (h : Returns (joinAll schedule ps) tr os (.ok as)) :
    ∃ each, Interleaves each tr ∧ Joined ps each as := by
  induction schedule generalizing ps tr os with
  | nil => exact returns_inOrder h
  | cons i schedule ih =>
    unfold joinAll at h
    split at h
    · exact ih h
    · exact ih h
    · exact h.err_ne_ok.elim
    · rename_i o p hi
      obtain ⟨os',rfl,hrest⟩ := h.of_emit
      obtain ⟨each,hinter,hjoined⟩ := ih hrest
      have hlength : as.length = ps.length := by rw [hjoined.length, List.length_set]
      refine ⟨_,hinter.append_left i [],hlength,hjoined.returned.moved [] hi ?_⟩
      rintro tr ⟨os,a,ha,hr⟩
      exact ⟨o :: os,a,ha,.emit hr⟩
    · rename_i r k hi
      obtain ⟨x,tr',rfl,hrest⟩ := h.of_call
      obtain ⟨each,hinter,hjoined⟩ := ih hrest
      have hlength : as.length = ps.length := by rw [hjoined.length, List.length_set]
      refine ⟨_,hinter.append_left i [⟨r,x⟩],hlength,hjoined.returned.moved [⟨r,x⟩] hi ?_⟩
      rintro tr ⟨os,a,ha,hr⟩
      exact ⟨os,a,ha,.call hr⟩

end Rules

end SlatedbCloudflare.Joins
