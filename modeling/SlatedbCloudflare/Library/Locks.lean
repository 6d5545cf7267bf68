import SlatedbCloudflare.Library.Programs

/-! # Programs that share a state and one mutex

Each request of a thread is one atomic step on the shared state. A critical
section takes the mutex before its first request and gives it back on every way
out; what it keeps is judged by its weakest precondition.
-/
namespace SlatedbCloudflare.Locks
open Programs

/-- The requests of a program with a mutex. -/
inductive Locked (Req : Type)
  | lock
  | unlock
  | act (r : Req)

abbrev Locked.Reply {Req : Type} (Resp : Req → Type) : Locked Req → Type
  | .lock => Unit
  | .unlock => Unit
  | .act r => Resp r

abbrev LockedProg (Req : Type) (Resp : Req → Type) (Out ε α : Type) :=
  Prog (Locked Req) (Locked.Reply Resp) Out ε α

variable {ι σ Req : Type} {Resp : Req → Type} {Out ε α β : Type}

/-- `p` without the mutex. -/
def free : Prog Req Resp Out ε α → LockedProg Req Resp Out ε α
  | .ok a => .ok a
  | .err e => .err e
  | .emit o p => .emit o (free p)
  | .call r k => .call (.act r) (fun x => free (k x))

/-- `p` with the mutex held, given back at the end. -/
def release : Prog Req Resp Out ε α → LockedProg Req Resp Out ε α
  | .ok a => .call .unlock (fun _ => .ok a)
  | .err e => .call .unlock (fun _ => .err e)
  | .emit o p => .emit o (release p)
  | .call r k => .call (.act r) (fun x => release (k x))

/-- `p` while the guard of the mutex is in scope. -/
def withLock (p : Prog Req Resp Out ε α) : LockedProg Req Resp Out ε α :=
  .call .lock (fun _ => release p)

theorem free_bind (p : Prog Req Resp Out ε α) (f : α → Prog Req Resp Out ε β) :
    free (p >>= f) = free p >>= fun a => free (f a) := by
  induction p with
  | ok a => rfl
  | err e => rfl
  | emit o p ih => exact congrArg (Prog.emit o) ih
  | call r k ih => exact congrArg (Prog.call (Locked.act r)) (funext ih)

def acted (x : (r : Req) × Resp r) : (r : Locked Req) × Locked.Reply Resp r := ⟨.act x.1,x.2⟩

theorem returns_free {p : Prog Req Resp Out ε α} {tr : List ((r : Locked Req) × Locked.Reply Resp r)}
    {os : List Out} {r : Except ε α} (h : Returns (free p) tr os r) : ∃ tr', tr = tr'.map acted ∧ Returns p tr' os r := by
  induction p generalizing tr os with
  | ok a =>
    obtain ⟨rfl,rfl,rfl⟩ := h.of_ok
    exact ⟨[],rfl,.refl _⟩
  | err e =>
    obtain ⟨rfl,rfl,rfl⟩ := h.of_err
    exact ⟨[],rfl,.refl _⟩
  | emit o p ih =>
    obtain ⟨os',rfl,hrest⟩ := h.of_emit
    obtain ⟨tr',rfl,hp⟩ := ih hrest
    exact ⟨tr',rfl,.emit hp⟩
  | call q k ih =>
    obtain ⟨x,tr₁,rfl,hrest⟩ := h.of_call
    obtain ⟨tr',rfl,hp⟩ := ih x hrest
    exact ⟨⟨q,x⟩ :: tr',rfl,.call hp⟩

theorem returns_release {p : Prog Req Resp Out ε α} {tr : List ((r : Locked Req) × Locked.Reply Resp r)}
    {os : List Out} {r : Except ε α} (h : Returns (release p) tr os r) :
    ∃ tr', tr = tr'.map acted ++ [⟨.unlock,()⟩] ∧ Returns p tr' os r := by
  induction p generalizing tr os with
  | ok a =>
    obtain ⟨_,_,rfl,hend⟩ := h.of_call
    obtain ⟨rfl,rfl,rfl⟩ := hend.of_ok
    exact ⟨[],rfl,.refl _⟩
  | err e =>
    obtain ⟨_,_,rfl,hend⟩ := h.of_call
    obtain ⟨rfl,rfl,rfl⟩ := hend.of_err
    exact ⟨[],rfl,.refl _⟩
  | emit o p ih =>
    obtain ⟨os',rfl,hrest⟩ := h.of_emit
    obtain ⟨tr',rfl,hp⟩ := ih hrest
    exact ⟨tr',rfl,.emit hp⟩
  | call q k ih =>
    obtain ⟨x,tr₁,rfl,hrest⟩ := h.of_call
    obtain ⟨tr',rfl,hp⟩ := ih x hrest
    exact ⟨⟨q,x⟩ :: tr',rfl,.call hp⟩

theorem returns_withLock {p : Prog Req Resp Out ε α} {tr : List ((r : Locked Req) × Locked.Reply Resp r)}
    {os : List Out} {r : Except ε α} (h : Returns (withLock p) tr os r) :
    ∃ tr', tr = ⟨.lock,()⟩ :: (tr'.map acted ++ [⟨.unlock,()⟩]) ∧ Returns p tr' os r := by
  obtain ⟨_,_,rfl,hrelease⟩ := h.of_call
  obtain ⟨tr',rfl,hp⟩ := returns_release hrelease
  exact ⟨tr',rfl,hp⟩

theorem free_returns {p : Prog Req Resp Out ε α} {tr : List ((r : Req) × Resp r)} {os : List Out} {r : Except ε α}
    (h : Returns p tr os r) : Returns (free p) (tr.map acted) os r := by
  induction p generalizing tr os with
  | ok a =>
    obtain ⟨rfl,rfl,rfl⟩ := h.of_ok
    exact .refl _
  | err e =>
    obtain ⟨rfl,rfl,rfl⟩ := h.of_err
    exact .refl _
  | emit o p ih =>
    obtain ⟨os',rfl,hrest⟩ := h.of_emit
    exact .emit (ih hrest)
  | call q k ih =>
    obtain ⟨x,tr',rfl,hrest⟩ := h.of_call
    exact .call (ih x hrest)

theorem withLock_returns {p : Prog Req Resp Out ε α} {tr : List ((r : Req) × Resp r)} {os : List Out}
    {r : Except ε α} (h : Returns p tr os r) :
    Returns (withLock p) (⟨.lock,()⟩ :: (tr.map acted ++ [⟨.unlock,()⟩])) os r := by
  refine .call ?_
  induction p generalizing tr os with
  | ok a =>
    obtain ⟨rfl,rfl,rfl⟩ := h.of_ok
    exact .call (.refl _)
  | err e =>
    obtain ⟨rfl,rfl,rfl⟩ := h.of_err
    exact .call (.refl _)
  | emit o p ih =>
    obtain ⟨os',rfl,hrest⟩ := h.of_emit
    exact .emit (ih hrest)
  | call q k ih =>
    obtain ⟨x,tr',rfl,hrest⟩ := h.of_call
    exact .call (ih x hrest)

section Uncontended

/-- The answers to a program that no other one contends with for the mutex. -/
def uncontended (answer : σ → (r : Req) → Resp r × σ) (s : σ) : (r : Locked Req) → Locked.Reply Resp r × σ
  | .lock => ((),s)
  | .unlock => ((),s)
  | .act r => answer s r

variable {answer : σ → (r : Req) → Resp r × σ} {s : σ}

theorem evalFrom_free (p : Prog Req Resp Out ε α) :
    (free p).evalFrom (uncontended answer) s = p.evalFrom answer s := by
  induction p generalizing s with
  | ok a => rfl
  | err e => rfl
  | emit o p ih => exact ih
  | call r k ih => exact ih _

theorem evalFrom_withLock (p : Prog Req Resp Out ε α) :
    (withLock p).evalFrom (uncontended answer) s = p.evalFrom answer s := by
  have hrelease : (release p).evalFrom (uncontended answer) s = p.evalFrom answer s := by
    induction p generalizing s with
    | ok a => rfl
    | err e => rfl
    | emit o p ih => exact ih
    | call r k ih => exact ih _
  exact hrelease

end Uncontended

structure Pool (ι σ Req : Type) (Resp : Req → Type) (Out ε α : Type) where
  state : σ
  holder : Option ι
  thread : ι → LockedProg Req Resp Out ε α

def start (s : σ) (p : ι → LockedProg Req Resp Out ε α) : Pool ι σ Req Resp Out ε α := ⟨s,none,p⟩

structure Event (ι σ Req : Type) (Resp : Req → Type) where
  caller : ι
  req : Req
  reply : Resp req
  before : σ
  after : σ

section Runs
variable [DecidableEq ι]

inductive Step (serve : σ → (r : Req) → Resp r → σ → Prop) :
    Pool ι σ Req Resp Out ε α → List (Event ι σ Req Resp) → Pool ι σ Req Resp Out ε α → Prop
  | emit (S : Pool ι σ Req Resp Out ε α) {i : ι} {o : Out} {p : LockedProg Req Resp Out ε α}
      (h : S.thread i = .emit o p) : Step serve S [] ⟨S.state,S.holder,Function.update S.thread i p⟩
  | lock (S : Pool ι σ Req Resp Out ε α) {i : ι} {k : Unit → LockedProg Req Resp Out ε α}
      (h : S.thread i = .call .lock k) (hfree : S.holder = none) :
      Step serve S [] ⟨S.state,some i,Function.update S.thread i (k ())⟩
  | unlock (S : Pool ι σ Req Resp Out ε α) {i : ι} {k : Unit → LockedProg Req Resp Out ε α}
      (h : S.thread i = .call .unlock k) (hheld : S.holder = some i) :
      Step serve S [] ⟨S.state,none,Function.update S.thread i (k ())⟩
  | act (S : Pool ι σ Req Resp Out ε α) {i : ι} {r : Req} {k : Resp r → LockedProg Req Resp Out ε α}
      {x : Resp r} {t : σ} (h : S.thread i = .call (.act r) k) (hs : serve S.state r x t) :
      Step serve S [⟨i,r,x,S.state,t⟩] ⟨t,S.holder,Function.update S.thread i (k x)⟩

inductive Run (serve : σ → (r : Req) → Resp r → σ → Prop) :
    Pool ι σ Req Resp Out ε α → List (Event ι σ Req Resp) → Pool ι σ Req Resp Out ε α → Prop
  | refl {S : Pool ι σ Req Resp Out ε α} : Run serve S [] S
  | step {S T U : Pool ι σ Req Resp Out ε α} {es ev : List (Event ι σ Req Resp)}
      (h : Run serve S es T) (ht : Step serve T ev U) : Run serve S (es ++ ev) U

theorem Run.trans {serve : σ → (r : Req) → Resp r → σ → Prop} {S T U : Pool ι σ Req Resp Out ε α}
    {es es' : List (Event ι σ Req Resp)} (h : Run serve S es T) (h' : Run serve T es' U) :
    Run serve S (es ++ es') U := by
  induction h' with
  | refl => simpa using h
  | step _ ht ih =>
    rw [← List.append_assoc]
    exact ih.step ht

theorem Run.serves {serve : σ → (r : Req) → Resp r → σ → Prop} {S T : Pool ι σ Req Resp Out ε α}
    {es : List (Event ι σ Req Resp)} (h : Run serve S es T) :
    ∀ e ∈ es, serve e.before e.req e.reply e.after := by
  induction h with
  | refl => simp
  | step _ ht ih =>
    intro e he
    rcases List.mem_append.mp he with he | he
    · exact ih e he
    · cases ht <;> simp at he
      subst he
      assumption

/-- A run whose events all lie within a smaller service is a run of it. -/
theorem Run.restrict {serve serve' : σ → (r : Req) → Resp r → σ → Prop}
    {S T : Pool ι σ Req Resp Out ε α} {es : List (Event ι σ Req Resp)} (h : Run serve S es T)
    (hes : ∀ e ∈ es, serve' e.before e.req e.reply e.after) : Run serve' S es T := by
  induction h with
  | refl => exact .refl
  | @step T U es ev h ht ih =>
    have hrun := ih fun e he => hes e (List.mem_append_left _ he)
    apply hrun.step
    cases ht with
    | emit h => exact .emit _ h
    | lock h hfree => exact .lock _ h hfree
    | unlock h hheld => exact .unlock _ h hheld
    | act h hs =>
      have hlast := hes _ (List.mem_append_right _ (List.mem_singleton.mpr rfl))
      exact .act _ h hlast

end Runs

section Discipline
variable (serve : σ → (r : Req) → Resp r → σ → Prop)

/-- The request leaves the state as it is, however it is answered. -/
def Neutral (r : Req) : Prop := ∀ s x t, serve s r x t → t = s

/-- From `s`, every state that `p` goes through satisfies `P`, and its end satisfies `Q`. -/
def Wp (P : σ → Prop) (Q : Except ε α → σ → Prop) : Prog Req Resp Out ε α → σ → Prop
  | .ok a, s => Q (.ok a) s
  | .err e, s => Q (.error e) s
  | .emit _ p, s => Wp P Q p s
  | .call r k, s => ∀ x t, serve s r x t → P t ∧ Wp P Q (k x) t

/-- The program changes the state in critical sections only. A section that finds
`I` keeps `P` throughout and leaves `I`; `some s` is the state inside of one. -/
def Disciplined (I P : σ → Prop) : LockedProg Req Resp Out ε α → Option σ → Prop
  | .ok _, m => m = none
  | .err _, m => m = none
  | .emit _ p, m => Disciplined I P p m
  | .call .lock k, m => m = none ∧ ∀ s, I s → Disciplined I P (k ()) (some s)
  | .call .unlock k, m => (∃ s, m = some s ∧ I s) ∧ Disciplined I P (k ()) none
  | .call (.act r) k, none => Neutral serve r ∧ ∀ x, Disciplined I P (k x) none
  | .call (.act r) k, some s => ∀ x t, serve s r x t → P t ∧ Disciplined I P (k x) (some t)

variable {serve} {I P : σ → Prop}

theorem Wp.imp {Q Q' : Except ε α → σ → Prop} {p : Prog Req Resp Out ε α} {s : σ}
    (h : Wp serve P Q p s) (himp : ∀ r t, Q r t → Q' r t) : Wp serve P Q' p s := by
  induction p generalizing s with
  | ok a => exact himp _ _ h
  | err e => exact himp _ _ h
  | emit o p ih => exact ih h
  | call r k ih =>
    intro x t hs
    obtain ⟨hP,hk⟩ := h x t hs
    exact ⟨hP,ih x hk⟩

theorem Wp.bind {Q : Except ε β → σ → Prop} {p : Prog Req Resp Out ε α}
    {f : α → Prog Req Resp Out ε β} {s : σ}
    (h : Wp serve P (fun r t => match r with
      | .ok a => Wp serve P Q (f a) t
      | .error e => Q (.error e) t) p s) : Wp serve P Q (p >>= f) s := by
  induction p generalizing s with
  | ok a => exact h
  | err e => exact h
  | emit o p ih => exact ih h
  | call r k ih =>
    intro x t hs
    obtain ⟨hP,hk⟩ := h x t hs
    exact ⟨hP,ih x hk⟩

theorem Wp.neutral {Q : Except ε α → σ → Prop} {p : Prog Req Resp Out ε α} {s : σ}
    (hp : p.Asks (Neutral serve)) (hP : P s) (hQ : ∀ r, Q r s) : Wp serve P Q p s := by
  induction p with
  | ok a => exact hQ _
  | err e => exact hQ _
  | emit o p ih => exact ih hp
  | call r k ih =>
    intro x t hs
    have heq := hp.1 s x t hs
    subst heq
    exact ⟨hP,ih x (hp.2 x)⟩

theorem release_bind {p : Prog Req Resp Out ε α} {f : α → LockedProg Req Resp Out ε β} {s : σ}
    (hp : Wp serve P (fun _ t => I t) p s) (hf : ∀ a, Disciplined serve I P (f a) none) :
    Disciplined serve I P (release p >>= f) (some s) := by
  induction p generalizing s with
  | ok a => exact ⟨⟨s,rfl,hp⟩,hf a⟩
  | err e => exact ⟨⟨s,rfl,hp⟩,rfl⟩
  | emit o p ih => exact ih hp
  | call r k ih =>
    intro x t hs
    obtain ⟨hP,hk⟩ := hp x t hs
    exact ⟨hP,ih x hk⟩

/-- A critical section that leaves what it found may be followed by anything disciplined. -/
theorem Disciplined.withLock {p : Prog Req Resp Out ε α} {f : α → LockedProg Req Resp Out ε β}
    (hp : ∀ s, I s → Wp serve P (fun _ t => I t) p s)
    (hf : ∀ a, Disciplined serve I P (f a) none) :
    Disciplined serve I P (withLock p >>= f) none :=
  ⟨rfl,fun s hs => release_bind (hp s hs) hf⟩

theorem Disciplined.free {p : Prog Req Resp Out ε α} (hp : p.Asks (Neutral serve)) :
    Disciplined serve I P (free p) none := by
  induction p with
  | ok a => exact rfl
  | err e => exact rfl
  | emit o p ih => exact ih hp
  | call r k ih => exact ⟨hp.1,fun x => ih x (hp.2 x)⟩

variable [DecidableEq ι]

/-- Where the mutex is free the state satisfies `I`, and every thread is disciplined. -/
structure Kept (serve : σ → (r : Req) → Resp r → σ → Prop) (I P : σ → Prop)
    (S : Pool ι σ Req Resp Out ε α) : Prop where
  passing : P S.state
  settled : S.holder = none → I S.state
  threads : ∀ i, Disciplined serve I P (S.thread i) (if S.holder = some i then some S.state else none)

theorem Kept.start {s : σ} {p : ι → LockedProg Req Resp Out ε α} (hs : I s) (hP : P s)
    (hp : ∀ i, Disciplined serve I P (p i) none) : Kept serve I P (start s p) :=
  ⟨hP,fun _ => hs,hp⟩

theorem Kept.step {S T : Pool ι σ Req Resp Out ε α} {ev : List (Event ι σ Req Resp)}
    (h : Kept serve I P S) (ht : Step serve S ev T) : Kept serve I P T := by
  obtain ⟨hP,hI,hthreads⟩ := h
  cases ht with
  | @emit i o p h =>
    refine ⟨hP,hI,fun j => ?_⟩
    by_cases hji : j = i
    · subst hji
      have hj := hthreads j
      rw [h] at hj
      simp only [Function.update_self]
      exact hj
    · simpa [Function.update_of_ne hji] using hthreads j
  | @lock i k h hfree =>
    refine ⟨hP,nofun,fun j => ?_⟩
    have hj := hthreads j
    rw [hfree] at hj
    by_cases hji : j = i
    · subst hji
      rw [h] at hj
      simpa using hj.2 S.state (hI hfree)
    · have hij : ¬ i = j := fun h => hji h.symm
      simpa [Function.update_of_ne hji, hij] using hj
  | @unlock i k h hheld =>
    have hi := hthreads i
    rw [h, if_pos hheld] at hi
    obtain ⟨⟨s,hs,hIs⟩,hk⟩ := hi
    cases hs
    refine ⟨hP,fun _ => hIs,fun j => ?_⟩
    by_cases hji : j = i
    · subst hji
      simpa using hk
    · have hj := hthreads j
      have hij : ¬ S.holder = some j := fun h => hji (Option.some.inj (h.symm.trans hheld))
      rw [if_neg hij] at hj
      simpa [Function.update_of_ne hji] using hj
  | @act i r k x t h hs =>
    have hi := hthreads i
    rw [h] at hi
    by_cases hheld : S.holder = some i
    · rw [if_pos hheld] at hi
      obtain ⟨hPt,hk⟩ := hi x t hs
      refine ⟨hPt,fun hfree => ?_,fun j => ?_⟩
      · rw [hheld] at hfree
        cases hfree
      · by_cases hji : j = i
        · subst hji
          simpa [hheld] using hk
        · have hj := hthreads j
          have hij : ¬ S.holder = some j := fun h => hji (Option.some.inj (h.symm.trans hheld))
          rw [if_neg hij] at hj
          simpa [Function.update_of_ne hji, hij] using hj
    · rw [if_neg hheld] at hi
      -- outside the mutex only neutral requests are made
      have heq := hi.1 _ _ _ hs
      subst heq
      refine ⟨hP,hI,fun j => ?_⟩
      by_cases hji : j = i
      · subst hji
        simpa [hheld] using hi.2 x
      · simpa [Function.update_of_ne hji] using hthreads j

theorem Run.kept {S T : Pool ι σ Req Resp Out ε α} {es : List (Event ι σ Req Resp)}
    (h : Run serve S es T) (hS : Kept serve I P S) :
    Kept serve I P T ∧ ∀ e ∈ es, P e.before ∧ P e.after := by
  induction h with
  | refl => exact ⟨hS,by simp⟩
  | @step T U es ev _ ht ih =>
    obtain ⟨hT,hes⟩ := ih
    have hU := hT.step ht
    refine ⟨hU,fun e he => ?_⟩
    rcases List.mem_append.mp he with he | he
    · exact hes e he
    · cases ht <;> simp at he
      subst he
      exact ⟨hT.passing,hU.passing⟩

end Discipline

section Uncontended

/-- One thread while no other moves: the state and the holder of the mutex. -/
def Alone (serve : σ → (r : Req) → Resp r → σ → Prop) (i : ι) :
    σ × Option ι → (r : Locked Req) → Locked.Reply Resp r → σ × Option ι → Prop
  | (s,h), .lock, _, (t,g) => h = none ∧ g = some i ∧ t = s
  | (s,h), .unlock, _, (t,g) => h = some i ∧ g = none ∧ t = s
  | (s,h), .act r, x, (t,g) => serve s r x t ∧ g = h

variable [DecidableEq ι] {serve : σ → (r : Req) → Resp r → σ → Prop}

/-- A thread running alone is one way to run, and the last event leaves the final state. -/
theorem Run.alone {i : ι} {p q : LockedProg Req Resp Out ε α}
    {tr : List ((r : Locked Req) × Locked.Reply Resp r)} {os : List Out} (h : Consumes p tr os q)
    {S : Pool ι σ Req Resp Out ε α} (hp : S.thread i = p) {t : σ} {g : Option ι}
    (hc : Chain (Alone serve i) (S.state,S.holder) tr (t,g)) :
    ∃ es, Run serve S es ⟨t,g,Function.update S.thread i q⟩ := by
  induction h generalizing S with
  | refl p =>
    subst hp
    cases hc.of_nil
    exact ⟨[],by simpa using Run.refl⟩
  | @emit o p q tr os _ ih =>
    obtain ⟨es,hrun⟩ := ih (S := ⟨S.state,S.holder,Function.update S.thread i p⟩) (by simp) hc
    exact ⟨es,by simpa using (Run.refl.step (.emit S hp)).trans hrun⟩
  | @call r x k q tr os _ ih =>
    obtain ⟨⟨u,f⟩,hs,hc⟩ := hc.of_cons
    obtain ⟨es,hrun⟩ := ih (S := ⟨u,f,Function.update S.thread i (k x)⟩) (by simp) hc
    cases r with
    | lock =>
      obtain ⟨hfree,rfl,rfl⟩ := hs
      exact ⟨es,by simpa using (Run.refl.step (.lock S hp hfree)).trans hrun⟩
    | unlock =>
      obtain ⟨hheld,rfl,rfl⟩ := hs
      exact ⟨es,by simpa using (Run.refl.step (.unlock S hp hheld)).trans hrun⟩
    | act r =>
      obtain ⟨hs,rfl⟩ := hs
      exact ⟨_,by simpa using (Run.refl.step (.act S hp hs)).trans hrun⟩

theorem Run.last {S T : Pool ι σ Req Resp Out ε α} {es : List (Event ι σ Req Resp)}
    (h : Run serve S es T) {P : σ → Prop} (hS : P S.state) (hes : ∀ e ∈ es, P e.after) :
    P T.state := by
  induction h with
  | refl => exact hS
  | @step T U es ev _ ht ih =>
    have hT := ih fun e he => hes e (List.mem_append_left _ he)
    cases ht with
    | emit | lock | unlock => exact hT
    | act h hs => exact hes _ (List.mem_append_right _ (List.mem_singleton.mpr rfl))

theorem Disciplined.alone {I P : σ → Prop} {p : LockedProg Req Resp Out ε α}
    (hp : Disciplined serve I P p none) (hIP : ∀ s, I s → P s)
    {tr : List ((r : Locked Req) × Locked.Reply Resp r)} {os : List Out} {r : Except ε α}
    (h : Returns p tr os r) {s t : σ} (hs : I s)
    (hc : Chain (Alone serve ()) (s,none) tr (t,none)) : I t := by
  have hstart : Kept serve I P (start s fun _ : Unit => p) := .start hs (hIP s hs) fun _ => hp
  obtain ⟨es,hrun⟩ := Run.alone h (S := start s fun _ : Unit => p) rfl hc
  exact (hrun.kept hstart).1.settled rfl

end Uncontended

end SlatedbCloudflare.Locks
