import SlatedbCloudflare.Library.Locks
import Mathlib.Data.List.Chain

/-! # The threads of a run

The events of a run lead from state to state, and those of one thread are what its
program asked for. A run on a large state is one on each part of it.
-/
namespace SlatedbCloudflare.Locks
open Programs

variable {ι σ τ Req : Type} {Resp : Req → Type} {Out ε α β : Type}

section Paths

/-- Each event starts in the state that the one before it left. -/
def Path : σ → List (Event ι σ Req Resp) → σ → Prop
  | s, [], t => t = s
  | s, e :: es, t => e.before = s ∧ Path e.after es t

variable {s t u : σ} {es es' : List (Event ι σ Req Resp)}

theorem path_append : Path s (es ++ es') t ↔ ∃ u, Path s es u ∧ Path u es' t := by
  induction es generalizing s with
  | nil =>
    constructor
    · intro h
      exact ⟨s,rfl,h⟩
    · rintro ⟨u,rfl,h⟩
      exact h
  | cons e es ih =>
    rw [List.cons_append, Path, ih]
    constructor
    · rintro ⟨he,u,hes,h⟩
      exact ⟨u,⟨he,hes⟩,h⟩
    · rintro ⟨u,⟨he,hes⟩,h⟩
      exact ⟨he,u,hes,h⟩

theorem Path.snoc (h : Path s es t) {e : Event ι σ Req Resp} (he : e.before = t) : Path s (es ++ [e]) e.after :=
  path_append.mpr ⟨t,h,he,rfl⟩

theorem Path.invariant (h : Path s es t) {I : σ → Prop} (hs : I s) (hstep : ∀ e ∈ es, I e.before → I e.after) :
    I t ∧ ∀ e ∈ es, I e.before ∧ I e.after := by
  induction es generalizing s with
  | nil =>
    cases h
    exact ⟨hs,by simp⟩
  | cons e es ih =>
    obtain ⟨rfl,h⟩ := h
    have hafter := hstep e List.mem_cons_self hs
    obtain ⟨ht,hes⟩ := ih h hafter fun e he => hstep e (List.mem_cons_of_mem _ he)
    exact ⟨ht,List.forall_mem_cons.mpr ⟨⟨hs,hafter⟩,hes⟩⟩

/-- A relation that every event is in relates the ends, and each state to the end. -/
theorem Path.relates (h : Path s es t) {R : σ → σ → Prop} (hrefl : ∀ s, R s s)
    (htrans : ∀ s u t, R s u → R u t → R s t) (hstep : ∀ e ∈ es, R e.before e.after) :
    R s t ∧ ∀ e ∈ es, R e.before t ∧ R e.after t := by
  induction es generalizing s with
  | nil =>
    cases h
    exact ⟨hrefl _,by simp⟩
  | cons e es ih =>
    obtain ⟨rfl,h⟩ := h
    obtain ⟨ht,hes⟩ := ih h fun e he => hstep e (List.mem_cons_of_mem _ he)
    have hbefore := htrans _ _ _ (hstep e List.mem_cons_self) ht
    exact ⟨hbefore,List.forall_mem_cons.mpr ⟨⟨hbefore,ht⟩,hes⟩⟩

/-- Two events of which one comes before the other are related as what lies between them is. -/
theorem Path.pairwise (h : Path s es t) {R : σ → σ → Prop} (hrefl : ∀ s, R s s)
    (htrans : ∀ s u t, R s u → R u t → R s t) (hstep : ∀ e ∈ es, R e.before e.after) :
    es.Pairwise fun e e' => R e.after e'.before := by
  induction es generalizing s with
  | nil => exact .nil
  | cons e es ih =>
    obtain ⟨rfl,h⟩ := h
    have hrest : ∀ e ∈ es, R e.before e.after := fun e he => hstep e (List.mem_cons_of_mem _ he)
    refine List.pairwise_cons.mpr ⟨?_,ih h hrest⟩
    intro e' he'
    obtain ⟨l,l',rfl⟩ := List.append_of_mem he'
    obtain ⟨u,hl,hu,_⟩ := path_append.mp h
    subst hu
    exact (hl.relates hrefl htrans fun e he => hrest e (List.mem_append_left _ he)).1

end Paths

section Projections
variable (f : σ → τ)

/-- The events and the pool as a part of the state shows them. -/
def Event.map (e : Event ι σ Req Resp) : Event ι τ Req Resp := ⟨e.caller,e.req,e.reply,f e.before,f e.after⟩

def Pool.map (S : Pool ι σ Req Resp Out ε α) : Pool ι τ Req Resp Out ε α := ⟨f S.state,S.holder,S.thread⟩

variable {f} [DecidableEq ι] {serve : σ → (r : Req) → Resp r → σ → Prop}
  {serve' : τ → (r : Req) → Resp r → τ → Prop} {S T : Pool ι σ Req Resp Out ε α} {es : List (Event ι σ Req Resp)}

theorem Run.map (h : Run serve S es T) (hf : ∀ s r x t, serve s r x t → serve' (f s) r x (f t)) :
    Run serve' (S.map f) (es.map (Event.map f)) (T.map f) := by
  induction h with
  | refl => exact .refl
  | @step T U es ev _ ht ih =>
    rw [List.map_append]
    apply ih.step
    cases ht with
    | emit h => exact .emit (T.map f) h
    | lock h hfree => exact .lock (T.map f) h hfree
    | unlock h hheld => exact .unlock (T.map f) h hheld
    | act h hs => exact .act (T.map f) h (hf _ _ _ _ hs)

end Projections

section Threads
variable [DecidableEq ι] {serve : σ → (r : Req) → Resp r → σ → Prop} {S T : Pool ι σ Req Resp Out ε α}
  {es : List (Event ι σ Req Resp)}

theorem Run.path (h : Run serve S es T) : Path S.state es T.state := by
  induction h with
  | refl => exact rfl
  | step _ ht ih =>
    cases ht with
    | emit | lock | unlock =>
      rw [List.append_nil]
      exact ih
    | act => exact ih.snoc rfl

def Event.answer (e : Event ι σ Req Resp) : (r : Req) × Resp r := ⟨e.req,e.reply⟩

def own (i : ι) (es : List (Event ι σ Req Resp)) : List (Event ι σ Req Resp) := es.filter (fun e => e.caller = i)

theorem own_append (i : ι) (es es' : List (Event ι σ Req Resp)) : own i (es ++ es') = own i es ++ own i es' :=
  List.filter_append ..

theorem mem_own {i : ι} {e : Event ι σ Req Resp} : e ∈ own i es ↔ e ∈ es ∧ e.caller = i := by
  simp [own]

/-- What the other threads keep is kept between one event of a thread and its next. -/
theorem Path.own_chain {s t : σ} (h : Path s es t) {R : σ → σ → Prop} (hrefl : ∀ s, R s s)
    (htrans : ∀ s u t, R s u → R u t → R s t) {i : ι} (hothers : ∀ e ∈ es, e.caller ≠ i → R e.before e.after) :
    (∀ e ∈ (own i es).head?, R s e.before) ∧ (own i es).IsChain fun e e' => R e.after e'.before := by
  induction es generalizing s with
  | nil => exact ⟨by simp [own],.nil⟩
  | cons e es ih =>
    obtain ⟨rfl,h⟩ := h
    obtain ⟨hhead,hchain⟩ := ih h fun e he => hothers e (List.mem_cons_of_mem _ he)
    by_cases hi : e.caller = i
    · have hown : own i (e :: es) = e :: own i es := by simp [own, hi]
      rw [hown]
      refine ⟨?_,List.isChain_cons.mpr ⟨hhead,hchain⟩⟩
      intro e' he'
      cases he'
      exact hrefl _
    · have hown : own i (e :: es) = own i es := by simp [own, hi]
      rw [hown]
      refine ⟨fun e' he' => ?_,hchain⟩
      exact htrans _ _ _ (hothers e List.mem_cons_self hi) (hhead e' he')

/-- The requests of the shared state among the replies to a thread. -/
def acts (tr : List ((r : Locked Req) × Locked.Reply Resp r)) : List ((r : Req) × Resp r) :=
  tr.filterMap fun x => match x with
    | ⟨.act r,x⟩ => some ⟨r,x⟩
    | ⟨.lock,_⟩ => none
    | ⟨.unlock,_⟩ => none

theorem acts_append (tr tr' : List ((r : Locked Req) × Locked.Reply Resp r)) :
    acts (tr ++ tr') = acts tr ++ acts tr' := List.filterMap_append ..

@[simp] theorem acts_nil : acts ([] : List ((r : Locked Req) × Locked.Reply Resp r)) = [] := rfl

@[simp] theorem acts_lock (tr : List ((r : Locked Req) × Locked.Reply Resp r)) :
    acts (⟨.lock,()⟩ :: tr) = acts tr := rfl

@[simp] theorem acts_unlock (tr : List ((r : Locked Req) × Locked.Reply Resp r)) :
    acts (⟨.unlock,()⟩ :: tr) = acts tr := rfl

@[simp] theorem acts_act (r : Req) (x : Resp r) (tr : List ((r : Locked Req) × Locked.Reply Resp r)) :
    acts (⟨.act r,x⟩ :: tr) = ⟨r,x⟩ :: acts tr := rfl

@[simp] theorem acts_acted (tr : List ((r : Req) × Resp r)) : acts (tr.map acted) = tr := by
  induction tr with
  | nil => rfl
  | cons x tr ih =>
    rw [List.map_cons, acted, acts_act, ih]

theorem Run.consumes (h : Run serve S es T) (i : ι) : ∃ tr os, Consumes (S.thread i) tr os (T.thread i) ∧
    acts tr = (own i es).map Event.answer := by
  induction h with
  | refl => exact ⟨[],[],.refl _,rfl⟩
  | @step T U es ev _ ht ih =>
    obtain ⟨tr,os,hc,hacts⟩ := ih
    -- the step moved another thread, or this one by one more reply
    cases ht with
    | @emit j o p hj =>
      by_cases hij : i = j
      · subst hij
        rw [hj] at hc
        exact ⟨tr,os ++ [o],by simpa using hc.snoc_emit,by simpa using hacts⟩
      · exact ⟨tr,os,by simpa [Function.update_of_ne hij] using hc,by simpa using hacts⟩
    | @lock j k hj hfree =>
      by_cases hij : i = j
      · subst hij
        rw [hj] at hc
        have hsnoc := hc.snoc_call ()
        exact ⟨tr ++ [⟨.lock,()⟩],os,by simpa using hsnoc,by simpa [acts_append] using hacts⟩
      · exact ⟨tr,os,by simpa [Function.update_of_ne hij] using hc,by simpa using hacts⟩
    | @unlock j k hj hheld =>
      by_cases hij : i = j
      · subst hij
        rw [hj] at hc
        have hsnoc := hc.snoc_call ()
        exact ⟨tr ++ [⟨.unlock,()⟩],os,by simpa using hsnoc,by simpa [acts_append] using hacts⟩
      · exact ⟨tr,os,by simpa [Function.update_of_ne hij] using hc,by simpa using hacts⟩
    | @act j r k x t hj hs =>
      rw [own_append, List.map_append, ← hacts]
      by_cases hij : i = j
      · subst hij
        rw [hj] at hc
        have hsnoc := hc.snoc_call x
        exact ⟨tr ++ [⟨.act r,x⟩],os,by simpa using hsnoc,by simp [acts_append, own, Event.answer]⟩
      · refine ⟨tr,os,by simpa [Function.update_of_ne hij] using hc,?_⟩
        have hnone : own i [(⟨j,r,x,T.state,t⟩ : Event ι σ Req Resp)] = [] := by
          simp [own, Ne.symm hij]
        rw [hnone, List.map_nil, List.append_nil]

end Threads

section Asking
variable {p : Prog Req Resp Out ε α} {P : Locked Req → Prop}

theorem asks_of_free (h : p.Asks fun r => P (.act r)) : (free p).Asks P := by
  induction p with
  | ok a => trivial
  | err e => trivial
  | emit o p ih => exact ih h
  | call r k ih => exact ⟨h.1,fun x => ih x (h.2 x)⟩

theorem asks_of_withLock (hlock : P .lock) (hunlock : P .unlock) (h : p.Asks fun r => P (.act r)) :
    (withLock p).Asks P := by
  have hrelease : (release p).Asks P := by
    induction p with
    | ok a => exact ⟨hunlock,fun _ => trivial⟩
    | err e => exact ⟨hunlock,fun _ => trivial⟩
    | emit o p ih => exact ih h
    | call r k ih => exact ⟨h.1,fun x => ih x (h.2 x)⟩
  exact ⟨hlock,fun _ => hrelease⟩

theorem mem_acts {x : (r : Req) × Resp r} {tr : List ((r : Locked Req) × Locked.Reply Resp r)} (h : x ∈ acts tr) :
    acted x ∈ tr := by
  obtain ⟨y,hy,hxy⟩ := List.mem_filterMap.mp h
  obtain ⟨r,reply⟩ := y
  cases r with
  | lock | unlock => cases hxy
  | act r =>
    cases hxy
    exact hy

end Asking

section Sections
variable {p : Prog Req Resp Out ε α} {tr : List ((r : Locked Req) × Locked.Reply Resp r)} {os : List Out}

theorem consumes_free {q : LockedProg Req Resp Out ε α} (h : Consumes (free p) tr os q) :
    ∃ q', q = free q' ∧ Consumes p (acts tr) os q' := by
  induction p generalizing tr os with
  | ok a =>
    cases h
    exact ⟨_,rfl,.refl _⟩
  | err e =>
    cases h
    exact ⟨_,rfl,.refl _⟩
  | emit o p ih =>
    cases h with
    | refl => exact ⟨.emit o p,rfl,.refl _⟩
    | emit h =>
      obtain ⟨q',rfl,hp⟩ := ih h
      exact ⟨q',rfl,.emit hp⟩
  | call r k ih =>
    cases h with
    | refl => exact ⟨.call r k,rfl,.refl _⟩
    | @call _ x _ _ _ _ h =>
      obtain ⟨q',rfl,hp⟩ := ih x h
      exact ⟨q',rfl,.call hp⟩

theorem consumes_release {q : LockedProg Req Resp Out ε α} (h : Consumes (release p) tr os q) :
    ∃ q', Consumes p (acts tr) os q' := by
  induction p generalizing tr os with
  | ok a =>
    cases h with
    | refl => exact ⟨_,.refl _⟩
    | call h =>
      cases h
      exact ⟨_,.refl _⟩
  | err e =>
    cases h with
    | refl => exact ⟨_,.refl _⟩
    | call h =>
      cases h
      exact ⟨_,.refl _⟩
  | emit o p ih =>
    cases h with
    | refl => exact ⟨_,.refl _⟩
    | emit h =>
      obtain ⟨q',hp⟩ := ih h
      exact ⟨q',.emit hp⟩
  | call r k ih =>
    cases h with
    | refl => exact ⟨_,.refl _⟩
    | @call _ x _ _ _ _ h =>
      obtain ⟨q',hp⟩ := ih x h
      exact ⟨q',.call hp⟩

theorem consumes_withLock {q : LockedProg Req Resp Out ε α} (h : Consumes (withLock p) tr os q) :
    ∃ q', Consumes p (acts tr) os q' := by
  cases h with
  | refl => exact ⟨p,.refl _⟩
  | call h =>
    obtain ⟨q',hq⟩ := consumes_release h
    exact ⟨q',hq⟩

/-- A thread is in a critical section, or goes on with what the section returned. -/
theorem consumes_section {f : α → Prog Req Resp Out ε β} {q : LockedProg Req Resp Out ε β}
    (h : Consumes (withLock p >>= fun a => free (f a)) tr os q) :
    (∃ q' os', Consumes p (acts tr) os' q') ∨ ∃ a tr₁ tr₂ os₁ os₂ q', acts tr = tr₁ ++ tr₂ ∧
      Returns p tr₁ os₁ (.ok a) ∧ Consumes (f a) tr₂ os₂ q' := by
  rcases Returns.consumes_bind h with ⟨p',hp,_⟩ | ⟨a,tr₁,tr₂,os₁,os₂,rfl,_,hp,hf⟩
  · obtain ⟨q',hq⟩ := consumes_withLock hp
    exact .inl ⟨q',_,hq⟩
  · obtain ⟨tr₁',rfl,hp'⟩ := returns_withLock hp
    obtain ⟨q',rfl,hq⟩ := consumes_free hf
    refine .inr ⟨a,tr₁',acts tr₂,_,_,q',?_,hp',hq⟩
    rw [acts_append, acts_lock, acts_append, acts_acted, acts_unlock, acts_nil, List.append_nil]

theorem returns_section {f : α → Prog Req Resp Out ε β} {b : β}
    (h : Returns (withLock p >>= fun a => free (f a)) tr os (.ok b)) : ∃ a tr₁ tr₂ os₁ os₂,
      acts tr = tr₁ ++ tr₂ ∧ Returns p tr₁ os₁ (.ok a) ∧ Returns (f a) tr₂ os₂ (.ok b) := by
  obtain ⟨a,tr₁,tr₂,os₁,os₂,rfl,_,hp,hf⟩ := h.of_bind_ok
  obtain ⟨tr₁',rfl,hp'⟩ := returns_withLock hp
  obtain ⟨tr₂',rfl,hf'⟩ := returns_free hf
  refine ⟨a,tr₁',tr₂',_,_,?_,hp',hf'⟩
  rw [acts_append, acts_lock, acts_append, acts_acted, acts_unlock, acts_nil, List.append_nil, acts_acted]

end Sections

section Strictness
variable {P : (r : Req) × Resp r → Prop} {p : Prog Req Resp Out ε α}

/-- Taking and giving back the mutex is no failure. -/
def Locked.Good (P : (r : Req) × Resp r → Prop) : (r : Locked Req) × Locked.Reply Resp r → Prop
  | ⟨.lock,_⟩ => True
  | ⟨.unlock,_⟩ => True
  | ⟨.act r,x⟩ => P ⟨r,x⟩

theorem forall_acts {tr : List ((r : Locked Req) × Locked.Reply Resp r)} :
    (∀ x ∈ tr, Locked.Good P x) ↔ ∀ x ∈ acts tr, P x := by
  induction tr with
  | nil => simp
  | cons x tr ih =>
    obtain ⟨r,x⟩ := x
    cases r with
    | lock => rw [acts_lock, List.forall_mem_cons, ih, Locked.Good, true_and]
    | unlock => rw [acts_unlock, List.forall_mem_cons, ih, Locked.Good, true_and]
    | act r => rw [acts_act, List.forall_mem_cons, List.forall_mem_cons, ih, Locked.Good]

theorem fails_free (h : p.Fails) : (free p).Fails := by
  induction p with
  | ok a => exact h.elim
  | err e => trivial
  | emit o p ih => exact ih h
  | call r k ih => exact fun x => ih x (h x)

theorem strict_free (h : p.Strict P) : (free p).Strict (Locked.Good P) := by
  induction p with
  | ok a => trivial
  | err e => exact h.elim
  | emit o p ih => exact ih h
  | call r k ih => exact fun x => ⟨fun hx => ih x ((h x).1 hx),fun hx => fails_free ((h x).2 hx)⟩

theorem fails_release (h : p.Fails) : (release p).Fails := by
  induction p with
  | ok a => exact h.elim
  | err e => exact fun _ => trivial
  | emit o p ih => exact ih h
  | call r k ih => exact fun x => ih x (h x)

theorem strict_withLock (h : p.Strict P) : (withLock p).Strict (Locked.Good P) := by
  have hrelease : (release p).Strict (Locked.Good P) := by
    induction p with
    | ok a => exact .of_good (fun _ => trivial) fun _ => trivial
    | err e => exact h.elim
    | emit o p ih => exact ih h
    | call r k ih => exact fun x => ⟨fun hx => ih x ((h x).1 hx),fun hx => fails_release ((h x).2 hx)⟩
  exact .of_good (fun _ => trivial) fun _ => hrelease

end Strictness

end SlatedbCloudflare.Locks
