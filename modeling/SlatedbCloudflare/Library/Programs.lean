import Mathlib.Data.List.Basic
import Mathlib.Logic.Function.Basic

/-! # Resumable programs over a request interface

A program finishes, fails, records an output, or waits for the reply to one
request. It is the text of an asynchronous function seen between its suspension
points, independent of who answers the requests and of how runs are interleaved.
-/
namespace SlatedbCloudflare.Programs

/-- `Resp r` is the type of replies to the request `r`; `Out` records local effects. -/
inductive Prog (Req : Type) (Resp : Req → Type) (Out ε α : Type) : Type
  | ok (a : α)
  | err (e : ε)
  | emit (o : Out) (next : Prog Req Resp Out ε α)
  | call (r : Req) (next : Resp r → Prog Req Resp Out ε α)

namespace Prog
variable {Req : Type} {Resp : Req → Type} {Out ε α β : Type}

def bind (p : Prog Req Resp Out ε α) (f : α → Prog Req Resp Out ε β) : Prog Req Resp Out ε β :=
  match p with
  | .ok a => f a
  | .err e => .err e
  | .emit o next => .emit o (next.bind f)
  | .call r next => .call r (fun x => (next x).bind f)

instance : Monad (Prog Req Resp Out ε) where
  pure := .ok
  bind := bind

def ask (r : Req) : Prog Req Resp Out ε (Resp r) := .call r .ok

def tell (o : Out) : Prog Req Resp Out ε Unit := .emit o (.ok ())

/-- The `?` operator on a `Result` whose error goes through `handler` first. -/
def orElse {E : Type} (x : Except E α) (handler : E → Prog Req Resp Out ε α) :
    Prog Req Resp Out ε α :=
  match x with
  | .ok a => .ok a
  | .error e => handler e

/-- `try … catch`: a failure of `p` continues with `handler`. -/
def recover {ε' : Type} (p : Prog Req Resp Out ε α) (handler : ε → Prog Req Resp Out ε' α) :
    Prog Req Resp Out ε' α :=
  match p with
  | .ok a => .ok a
  | .err e => handler e
  | .emit o next => .emit o (next.recover handler)
  | .call r next => .call r (fun x => (next x).recover handler)

def attempt (p : Prog Req Resp Out ε α) : Prog Req Resp Out ε (Except ε α) :=
  (p >>= fun a => .ok (.ok a)).recover (fun e => .ok (.error e))

@[simp] theorem pure_eq (a : α) : (pure a : Prog Req Resp Out ε α) = .ok a := rfl
@[simp] theorem ok_bind (a : α) (f : α → Prog Req Resp Out ε β) : (Prog.ok a >>= f) = f a := rfl
@[simp] theorem err_bind (e : ε) (f : α → Prog Req Resp Out ε β) :
    (Prog.err e >>= f) = .err e := rfl
@[simp] theorem emit_bind (o : Out) (p : Prog Req Resp Out ε α) (f : α → Prog Req Resp Out ε β) :
    (Prog.emit o p >>= f) = .emit o (p >>= f) := rfl
@[simp] theorem call_bind (r : Req) (k : Resp r → Prog Req Resp Out ε α)
    (f : α → Prog Req Resp Out ε β) : (Prog.call r k >>= f) = .call r (fun x => k x >>= f) := rfl
@[simp] theorem ask_bind (r : Req) (f : Resp r → Prog Req Resp Out ε β) :
    (ask r >>= f) = .call r f := rfl
@[simp] theorem tell_bind (o : Out) (f : Unit → Prog Req Resp Out ε β) :
    (tell o >>= f) = .emit o (f ()) := rfl
@[simp] theorem orElse_ok {E : Type} (a : α) (handler : E → Prog Req Resp Out ε α) :
    orElse (.ok a) handler = .ok a := rfl
@[simp] theorem orElse_error {E : Type} (e : E) (handler : E → Prog Req Resp Out ε α) :
    orElse (.error e) handler = handler e := rfl

theorem bind_assoc {γ : Type} (p : Prog Req Resp Out ε α) (f : α → Prog Req Resp Out ε β)
    (g : β → Prog Req Resp Out ε γ) : (p >>= f) >>= g = p >>= fun a => f a >>= g := by
  induction p with
  | ok a => rfl
  | err e => rfl
  | emit o next ih => exact congrArg (Prog.emit o) ih
  | call r next ih => exact congrArg (Prog.call r) (funext ih)

section Recover
variable {ε' : Type} (handler : ε → Prog Req Resp Out ε' α)

@[simp] theorem recover_ok (a : α) : (Prog.ok a).recover handler = .ok a := rfl
@[simp] theorem recover_err (e : ε) : (Prog.err e).recover handler = handler e := rfl
@[simp] theorem recover_call (r : Req) (k : Resp r → Prog Req Resp Out ε α) :
    (Prog.call r k).recover handler = .call r (fun x => (k x).recover handler) := rfl

end Recover

end Prog

variable {Req : Type} {Resp : Req → Type} {Out ε α : Type}

/-- `p` reaches `q` after the replies `tr`, recording `os` on the way. -/
inductive Consumes : Prog Req Resp Out ε α → List ((r : Req) × Resp r) → List Out →
    Prog Req Resp Out ε α → Prop
  | refl (p : Prog Req Resp Out ε α) : Consumes p [] [] p
  | emit {o : Out} {p q : Prog Req Resp Out ε α} {tr : List ((r : Req) × Resp r)} {os : List Out}
      (h : Consumes p tr os q) : Consumes (.emit o p) tr (o :: os) q
  | call {r : Req} {x : Resp r} {k : Resp r → Prog Req Resp Out ε α} {q : Prog Req Resp Out ε α}
      {tr : List ((r : Req) × Resp r)} {os : List Out}
      (h : Consumes (k x) tr os q) : Consumes (.call r k) (⟨r,x⟩ :: tr) os q

namespace Consumes

theorem snoc_emit {p q : Prog Req Resp Out ε α} {o : Out} {tr : List ((r : Req) × Resp r)}
    {os : List Out} (h : Consumes p tr os (.emit o q)) : Consumes p tr (os ++ [o]) q := by
  generalize hq : Prog.emit o q = m at h
  induction h with
  | refl p => subst hq; exact .emit (.refl q)
  | emit _ ih => exact .emit (ih hq)
  | call _ ih => exact .call (ih hq)

theorem snoc_call {p : Prog Req Resp Out ε α} {r : Req} {k : Resp r → Prog Req Resp Out ε α}
    {tr : List ((r : Req) × Resp r)} {os : List Out} (h : Consumes p tr os (.call r k))
    (x : Resp r) : Consumes p (tr ++ [⟨r,x⟩]) os (k x) := by
  generalize hq : Prog.call r k = m at h
  induction h with
  | refl p => subst hq; exact .call (.refl (k x))
  | emit _ ih => exact .emit (ih hq)
  | call _ ih => exact .call (ih hq)

end Consumes

/-- Every request of the program satisfies `P`, whatever the replies. -/
def Prog.Asks (P : Req → Prop) : Prog Req Resp Out ε α → Prop
  | .ok _ => True
  | .err _ => True
  | .emit _ next => next.Asks P
  | .call r next => P r ∧ ∀ x, (next x).Asks P

theorem Prog.Asks.imp {P P' : Req → Prop} {p : Prog Req Resp Out ε α} (hp : p.Asks P)
    (himp : ∀ r, P r → P' r) : p.Asks P' := by
  induction p with
  | ok a => trivial
  | err e => trivial
  | emit o next ih => exact ih hp
  | call r next ih => exact ⟨himp r hp.1,fun x => ih x (hp.2 x)⟩

theorem Prog.Asks.bind {β : Type} {P : Req → Prop} {p : Prog Req Resp Out ε α}
    {f : α → Prog Req Resp Out ε β} (hp : p.Asks P) (hf : ∀ a, (f a).Asks P) :
    (p >>= f).Asks P := by
  induction p with
  | ok a => exact hf a
  | err e => trivial
  | emit o next ih => exact ih hp
  | call r next ih => exact ⟨hp.1,fun x => ih x (hp.2 x)⟩

theorem Prog.Asks.recover {ε' : Type} {P : Req → Prop} {p : Prog Req Resp Out ε α}
    {handler : ε → Prog Req Resp Out ε' α} (hp : p.Asks P) (hh : ∀ e, (handler e).Asks P) :
    (p.recover handler).Asks P := by
  induction p with
  | ok a => trivial
  | err e => exact hh e
  | emit o next ih => exact ih hp
  | call r next ih => exact ⟨hp.1,fun x => ih x (hp.2 x)⟩

theorem Consumes.asks {P : Req → Prop} {p q : Prog Req Resp Out ε α}
    {tr : List ((r : Req) × Resp r)} {os : List Out} (h : Consumes p tr os q) (hp : p.Asks P) :
    ∀ x ∈ tr, P x.1 := by
  induction h with
  | refl p => simp
  | emit _ ih => exact ih hp
  | call _ ih =>
    intro x hx
    rcases List.mem_cons.mp hx with rfl | hx
    · exact hp.1
    · exact ih (hp.2 _) x hx

theorem Consumes.asks_rest {P : Req → Prop} {p q : Prog Req Resp Out ε α}
    {tr : List ((r : Req) × Resp r)} {os : List Out} (h : Consumes p tr os q) (hp : p.Asks P) :
    q.Asks P := by
  induction h with
  | refl p => exact hp
  | emit _ ih => exact ih hp
  | call _ ih => exact ih (hp.2 _)

/-- A run comes to each of its requests. -/
theorem Consumes.split {p q : Prog Req Resp Out ε α} {tr tr' : List ((r : Req) × Resp r)} {os : List Out}
    (h : Consumes p (tr ++ tr') os q) :
    ∃ r os₁ os₂, os = os₁ ++ os₂ ∧ Consumes p tr os₁ r ∧ Consumes r tr' os₂ q := by
  generalize hall : tr ++ tr' = all at h
  induction h generalizing tr with
  | refl p =>
    obtain ⟨rfl,rfl⟩ := List.append_eq_nil_iff.mp hall
    exact ⟨p,[],[],rfl,.refl p,.refl p⟩
  | emit _ ih =>
    obtain ⟨r,os₁,os₂,rfl,hfirst,hrest⟩ := ih hall
    exact ⟨r,_,os₂,rfl,.emit hfirst,hrest⟩
  | @call req x k q all os h ih =>
    cases tr with
    | nil =>
      subst hall
      exact ⟨_,[],os,rfl,.refl _,.call h⟩
    | cons y tr =>
      obtain ⟨rfl,hrest⟩ := List.cons.inj hall
      obtain ⟨r,os₁,os₂,rfl,hfirst,hlast⟩ := ih hrest
      exact ⟨r,os₁,os₂,rfl,.call hfirst,hlast⟩

/-- A run passed through the request of each of its replies. -/
theorem Consumes.take {p q : Prog Req Resp Out ε α} {tr : List ((r : Req) × Resp r)} {os : List Out}
    (h : Consumes p tr os q) {n : ℕ} {x : (r : Req) × Resp r} (hx : tr[n]? = some x) :
    ∃ os' k, Consumes p (tr.take n) os' (.call x.1 k) := by
  induction h generalizing n with
  | refl p => simp at hx
  | emit _ ih =>
    obtain ⟨os',k,h⟩ := ih hx
    exact ⟨_,k,.emit h⟩
  | @call r y k q tr os h ih =>
    cases n with
    | zero =>
      simp only [List.getElem?_cons_zero, Option.some.injEq] at hx
      subst hx
      exact ⟨[],k,.refl _⟩
    | succ n =>
      obtain ⟨os',k',h'⟩ := ih (by simpa using hx)
      exact ⟨os',k',.call h'⟩

def Prog.ofResult : Except ε α → Prog Req Resp Out ε α
  | .ok a => .ok a
  | .error e => .err e

/-- `p` returns `r` after the replies `tr`, recording `os`. -/
def Returns (p : Prog Req Resp Out ε α) (tr : List ((r : Req) × Resp r)) (os : List Out)
    (r : Except ε α) : Prop := Consumes p tr os (.ofResult r)

namespace Returns
variable {β : Type} {tr : List ((r : Req) × Resp r)} {os : List Out}

theorem of_ok {a : α} {r : Except ε α}
    (h : Returns (.ok a : Prog Req Resp Out ε α) tr os r) : tr = [] ∧ os = [] ∧ r = .ok a := by
  cases r with
  | ok b => cases h; exact ⟨rfl,rfl,rfl⟩
  | error e => cases h

theorem of_err {e : ε} {r : Except ε α}
    (h : Returns (.err e : Prog Req Resp Out ε α) tr os r) : tr = [] ∧ os = [] ∧ r = .error e := by
  cases r with
  | ok b => cases h
  | error e => cases h; exact ⟨rfl,rfl,rfl⟩

theorem err_ne_ok {e : ε} {a : α}
    (h : Returns (.err e : Prog Req Resp Out ε α) tr os (.ok a)) : False := by
  obtain ⟨_,_,he⟩ := of_err h
  cases he

theorem of_emit {o : Out} {p : Prog Req Resp Out ε α} {r : Except ε α}
    (h : Returns (.emit o p) tr os r) : ∃ os', os = o :: os' ∧ Returns p tr os' r := by
  cases r <;> cases h with
  | emit h => exact ⟨_,rfl,h⟩

theorem of_call {q : Req} {k : Resp q → Prog Req Resp Out ε α} {r : Except ε α}
    (h : Returns (.call q k) tr os r) :
    ∃ x tr', tr = ⟨q,x⟩ :: tr' ∧ Returns (k x) tr' os r := by
  cases r <;> cases h with
  | call h => exact ⟨_,_,rfl,h⟩

/-- A sequence returns by failing in its first part, or by running both. -/
theorem of_bind {p : Prog Req Resp Out ε α} {f : α → Prog Req Resp Out ε β} {r : Except ε β}
    (h : Returns (p >>= f) tr os r) :
    (∃ e, r = .error e ∧ Returns p tr os (.error e)) ∨
      ∃ a tr₁ tr₂ os₁ os₂, tr = tr₁ ++ tr₂ ∧ os = os₁ ++ os₂ ∧ Returns p tr₁ os₁ (.ok a) ∧
        Returns (f a) tr₂ os₂ r := by
  induction p generalizing tr os with
  | ok a => exact .inr ⟨a,[],tr,[],os,rfl,rfl,.refl _,h⟩
  | err e =>
    obtain ⟨rfl,rfl,rfl⟩ := of_err h
    exact .inl ⟨e,rfl,.refl _⟩
  | emit o p ih =>
    obtain ⟨os',rfl,hp⟩ := of_emit h
    rcases ih hp with ⟨e,rfl,he⟩ | ⟨a,tr₁,tr₂,os₁,os₂,rfl,rfl,h₁,h₂⟩
    · exact .inl ⟨e,rfl,.emit he⟩
    · exact .inr ⟨a,tr₁,tr₂,o :: os₁,os₂,rfl,rfl,.emit h₁,h₂⟩
  | call q k ih =>
    obtain ⟨x,tr',rfl,hp⟩ := of_call h
    rcases ih x hp with ⟨e,rfl,he⟩ | ⟨a,tr₁,tr₂,os₁,os₂,rfl,rfl,h₁,h₂⟩
    · exact .inl ⟨e,rfl,.call he⟩
    · exact .inr ⟨a,⟨q,x⟩ :: tr₁,tr₂,os₁,os₂,rfl,rfl,.call h₁,h₂⟩

/-- A program with a handler succeeds without it, or fails and goes on as the handler does. -/
theorem of_recover {ε' : Type} {p : Prog Req Resp Out ε α} {handler : ε → Prog Req Resp Out ε' α}
    {r : Except ε' α} (h : Returns (p.recover handler) tr os r) :
    (∃ a, r = .ok a ∧ Returns p tr os (.ok a)) ∨
      ∃ e tr₁ tr₂ os₁ os₂, tr = tr₁ ++ tr₂ ∧ os = os₁ ++ os₂ ∧ Returns p tr₁ os₁ (.error e) ∧
        Returns (handler e) tr₂ os₂ r := by
  induction p generalizing tr os with
  | ok a =>
    obtain ⟨rfl,rfl,rfl⟩ := of_ok h
    exact .inl ⟨a,rfl,.refl _⟩
  | err e => exact .inr ⟨e,[],tr,[],os,rfl,rfl,.refl _,h⟩
  | emit o p ih =>
    obtain ⟨os',rfl,hp⟩ := of_emit h
    rcases ih hp with ⟨a,rfl,ha⟩ | ⟨e,tr₁,tr₂,os₁,os₂,rfl,rfl,h₁,h₂⟩
    · exact .inl ⟨a,rfl,.emit ha⟩
    · exact .inr ⟨e,tr₁,tr₂,o :: os₁,os₂,rfl,rfl,.emit h₁,h₂⟩
  | call q k ih =>
    obtain ⟨x,tr',rfl,hp⟩ := of_call h
    rcases ih x hp with ⟨a,rfl,ha⟩ | ⟨e,tr₁,tr₂,os₁,os₂,rfl,rfl,h₁,h₂⟩
    · exact .inl ⟨a,rfl,.call ha⟩
    · exact .inr ⟨e,⟨q,x⟩ :: tr₁,tr₂,os₁,os₂,rfl,rfl,.call h₁,h₂⟩

theorem consumes_bind {p : Prog Req Resp Out ε α} {f : α → Prog Req Resp Out ε β}
    {q : Prog Req Resp Out ε β} (h : Consumes (p >>= f) tr os q) :
    (∃ p', Consumes p tr os p' ∧ q = p' >>= f) ∨
      ∃ a tr₁ tr₂ os₁ os₂, tr = tr₁ ++ tr₂ ∧ os = os₁ ++ os₂ ∧ Returns p tr₁ os₁ (.ok a) ∧
        Consumes (f a) tr₂ os₂ q := by
  induction p generalizing tr os with
  | ok a => exact .inr ⟨a,[],tr,[],os,rfl,rfl,.refl _,h⟩
  | err e =>
    cases h
    exact .inl ⟨_,.refl _,rfl⟩
  | emit o p ih =>
    cases h with
    | refl => exact .inl ⟨_,.refl _,rfl⟩
    | emit h =>
      rcases ih h with ⟨p',hp,rfl⟩ | ⟨a,tr₁,tr₂,os₁,os₂,rfl,rfl,h₁,h₂⟩
      · exact .inl ⟨p',.emit hp,rfl⟩
      · exact .inr ⟨a,tr₁,tr₂,o :: os₁,os₂,rfl,rfl,.emit h₁,h₂⟩
  | call r k ih =>
    cases h with
    | refl => exact .inl ⟨_,.refl _,rfl⟩
    | @call _ x _ _ _ _ h =>
      rcases ih x h with ⟨p',hp,rfl⟩ | ⟨a,tr₁,tr₂,os₁,os₂,rfl,rfl,h₁,h₂⟩
      · exact .inl ⟨p',.call hp,rfl⟩
      · exact .inr ⟨a,⟨r,x⟩ :: tr₁,tr₂,os₁,os₂,rfl,rfl,.call h₁,h₂⟩

theorem consumes_map {p : Prog Req Resp Out ε α} {g : α → β} {r : Req}
    {k : Resp r → Prog Req Resp Out ε β} (h : Consumes (p >>= fun a => pure (g a)) tr os (.call r k)) :
    ∃ k', Consumes p tr os (.call r k') := by
  rcases consumes_bind h with ⟨p',hp,hq⟩ | ⟨a,tr₁,tr₂,os₁,os₂,_,_,_,hend⟩
  · cases p' with
    | ok a => cases hq
    | err e => cases hq
    | emit o p' => cases hq
    | call r' k' =>
      cases hq
      exact ⟨k',hp⟩
  · cases hend

theorem of_bind_ok {p : Prog Req Resp Out ε α} {f : α → Prog Req Resp Out ε β} {b : β}
    (h : Returns (p >>= f) tr os (.ok b)) : ∃ a tr₁ tr₂ os₁ os₂, tr = tr₁ ++ tr₂ ∧
      os = os₁ ++ os₂ ∧ Returns p tr₁ os₁ (.ok a) ∧ Returns (f a) tr₂ os₂ (.ok b) := by
  rcases h.of_bind with ⟨e,he,_⟩ | h
  · cases he
  · exact h

theorem bind {p : Prog Req Resp Out ε α} {f : α → Prog Req Resp Out ε β} {a : α}
    {tr₁ tr₂ : List ((r : Req) × Resp r)} {os₁ os₂ : List Out} {r : Except ε β}
    (h : Returns p tr₁ os₁ (.ok a)) (hf : Returns (f a) tr₂ os₂ r) :
    Returns (p >>= f) (tr₁ ++ tr₂) (os₁ ++ os₂) r := by
  induction p generalizing tr₁ os₁ with
  | ok b =>
    obtain ⟨rfl,rfl,hb⟩ := h.of_ok
    cases hb
    exact hf
  | err e =>
    exact h.err_ne_ok.elim
  | emit o p ih =>
    obtain ⟨os',rfl,hp⟩ := h.of_emit
    exact .emit (ih hp)
  | call q k ih =>
    obtain ⟨x,tr',rfl,hp⟩ := h.of_call
    exact .call (ih x hp)

theorem bind_result {p : Prog Req Resp Out ε α} {f : α → Prog Req Resp Out ε β} {a : α}
    {r : Except ε β} (h : Returns p tr os (.ok a)) (hf : f a = .ofResult r) :
    Returns (p >>= f) tr os r := by
  have hnext : Returns (f a) [] [] r := by
    rw [Returns, hf]
    exact .refl _
  have hbind := h.bind hnext
  rwa [List.append_nil, List.append_nil] at hbind

theorem bind_error {p : Prog Req Resp Out ε α} {f : α → Prog Req Resp Out ε β} {e : ε}
    (h : Returns p tr os (.error e)) : Returns (p >>= f) tr os (.error e) := by
  induction p generalizing tr os with
  | ok b =>
    obtain ⟨_,_,hb⟩ := h.of_ok
    cases hb
  | err e' =>
    obtain ⟨rfl,rfl,he⟩ := h.of_err
    cases he
    exact .refl _
  | emit o p ih =>
    obtain ⟨os',rfl,hp⟩ := h.of_emit
    exact .emit (ih hp)
  | call q k ih =>
    obtain ⟨x,tr',rfl,hp⟩ := h.of_call
    exact .call (ih x hp)

/-- Replies determine what a program asks next and what it returns. -/
theorem deterministic {p : Prog Req Resp Out ε α} {tr₁ tr₂ : List ((r : Req) × Resp r)}
    {os₁ os₂ : List Out} {r₁ r₂ : Except ε α} (h₁ : Returns p tr₁ os₁ r₁) (h₂ : Returns p tr₂ os₂ r₂)
    (hp₁ : tr₁ <+: tr) (hp₂ : tr₂ <+: tr) : tr₁ = tr₂ ∧ os₁ = os₂ ∧ r₁ = r₂ := by
  induction p generalizing tr tr₁ tr₂ os₁ os₂ with
  | ok a =>
    obtain ⟨rfl,rfl,rfl⟩ := h₁.of_ok
    obtain ⟨rfl,rfl,rfl⟩ := h₂.of_ok
    exact ⟨rfl,rfl,rfl⟩
  | err e =>
    obtain ⟨rfl,rfl,rfl⟩ := h₁.of_err
    obtain ⟨rfl,rfl,rfl⟩ := h₂.of_err
    exact ⟨rfl,rfl,rfl⟩
  | emit o p ih =>
    obtain ⟨_,rfl,hnext₁⟩ := h₁.of_emit
    obtain ⟨_,rfl,hnext₂⟩ := h₂.of_emit
    obtain ⟨rfl,rfl,rfl⟩ := ih hnext₁ hnext₂ hp₁ hp₂
    exact ⟨rfl,rfl,rfl⟩
  | call q k ih =>
    obtain ⟨x,tr₁',rfl,hnext₁⟩ := h₁.of_call
    obtain ⟨y,tr₂',rfl,hnext₂⟩ := h₂.of_call
    obtain ⟨tail,rfl⟩ := hp₁
    rw [List.cons_append, List.cons_prefix_cons] at hp₂
    obtain ⟨hxy,hp₂⟩ := hp₂
    cases hxy
    obtain ⟨rfl,rfl,rfl⟩ := ih x hnext₁ hnext₂ (List.prefix_append _ _) hp₂
    exact ⟨rfl,rfl,rfl⟩

theorem of_result {x : Except ε α} {a : α}
    (h : Returns (Prog.orElse x .err : Prog Req Resp Out ε α) tr os (.ok a)) :
    x = .ok a ∧ tr = [] := by
  cases x with
  | ok b =>
    obtain ⟨htr,_,ha⟩ := of_ok h
    exact ⟨ha.symm,htr⟩
  | error e =>
    exact (err_ne_ok h).elim

theorem of_orElse {x : Except ε α} {f : α → Prog Req Resp Out ε β} {b : β}
    (h : Returns (Prog.orElse x .err >>= f) tr os (.ok b)) :
    ∃ a, x = .ok a ∧ Returns (f a) tr os (.ok b) := by
  cases x with
  | ok a => exact ⟨a,rfl,h⟩
  | error e =>
    exact (err_ne_ok h).elim

end Returns

theorem Returns.attempt {p : Prog Req Resp Out ε α} {tr : List ((r : Req) × Resp r)} {os : List Out}
    {r : Except ε α} (h : Returns p tr os r) : Returns p.attempt tr os (.ok r) := by
  induction p generalizing tr os with
  | ok a =>
    obtain ⟨rfl,rfl,rfl⟩ := h.of_ok
    exact .refl _
  | err e =>
    obtain ⟨rfl,rfl,rfl⟩ := h.of_err
    exact .refl _
  | emit o p ih =>
    obtain ⟨os',rfl,hp⟩ := h.of_emit
    exact .emit (ih hp)
  | call q k ih =>
    obtain ⟨x,tr',rfl,hp⟩ := h.of_call
    exact .call (ih x hp)

def Prog.Emits (P : Out → Prop) : Prog Req Resp Out ε α → Prop
  | .ok _ => True
  | .err _ => True
  | .emit o next => P o ∧ next.Emits P
  | .call _ next => ∀ x, (next x).Emits P

theorem Consumes.emits {P : Out → Prop} {p q : Prog Req Resp Out ε α} {tr : List ((r : Req) × Resp r)}
    {os : List Out} (h : Consumes p tr os q) (hp : p.Emits P) : ∀ o ∈ os, P o := by
  induction h with
  | refl p => exact fun o ho => absurd ho List.not_mem_nil
  | emit _ ih =>
    intro o ho
    rcases List.mem_cons.mp ho with rfl | ho
    · exact hp.1
    · exact ih hp.2 o ho
  | call _ ih => exact ih (hp _)

def Prog.Errs (P : ε → Prop) : Prog Req Resp Out ε α → Prop
  | .ok _ => True
  | .err e => P e
  | .emit _ next => next.Errs P
  | .call _ next => ∀ x, (next x).Errs P

theorem Prog.Errs.bind {β : Type} {P : ε → Prop} {p : Prog Req Resp Out ε α}
    {f : α → Prog Req Resp Out ε β} (hp : p.Errs P) (hf : ∀ a, (f a).Errs P) : (p >>= f).Errs P := by
  induction p with
  | ok a => exact hf a
  | err e => exact hp
  | emit o next ih => exact ih hp
  | call r next ih => exact fun x => ih x (hp x)

theorem Prog.Errs.of_orElse {E : Type} {P : ε → Prop} {x : Except E α}
    {f : E → Prog Req Resp Out ε α} (hf : ∀ e, (f e).Errs P) : (Prog.orElse x f).Errs P := by
  cases x with
  | ok a => trivial
  | error e => exact hf e

theorem Returns.errs {P : ε → Prop} {p : Prog Req Resp Out ε α} {tr : List ((r : Req) × Resp r)}
    {os : List Out} {e : ε} (h : Returns p tr os (.error e)) (hp : p.Errs P) : P e := by
  induction p generalizing tr os with
  | ok a =>
    obtain ⟨_,_,he⟩ := h.of_ok
    cases he
  | err e' =>
    obtain ⟨_,_,he⟩ := h.of_err
    cases he
    exact hp
  | emit o next ih =>
    obtain ⟨_,_,h⟩ := h.of_emit
    exact ih h hp
  | call r next ih =>
    obtain ⟨x,_,_,h⟩ := h.of_call
    exact ih x h (hp x)

def Prog.Fails : Prog Req Resp Out ε α → Prop
  | .ok _ => False
  | .err _ => True
  | .emit _ next => next.Fails
  | .call _ next => ∀ x, (next x).Fails

/-- The program succeeds exactly if all its replies are good. -/
def Prog.Strict (Good : (r : Req) × Resp r → Prop) : Prog Req Resp Out ε α → Prop
  | .ok _ => True
  | .err _ => False
  | .emit _ next => next.Strict Good
  | .call r next => ∀ x, (Good ⟨r,x⟩ → (next x).Strict Good) ∧ (¬ Good ⟨r,x⟩ → (next x).Fails)

theorem Prog.Fails.bind {β : Type} {p : Prog Req Resp Out ε α} {f : α → Prog Req Resp Out ε β}
    (hp : p.Fails) : (p >>= f).Fails := by
  induction p with
  | ok a => exact hp.elim
  | err e => trivial
  | emit o next ih => exact ih hp
  | call r next ih => exact fun x => ih x (hp x)

theorem Prog.Fails.of_bind {β : Type} {p : Prog Req Resp Out ε α} {f : α → Prog Req Resp Out ε β}
    (hf : ∀ a, (f a).Fails) : (p >>= f).Fails := by
  induction p with
  | ok a => exact hf a
  | err e => trivial
  | emit o next ih => exact ih
  | call r next ih => exact fun x => ih x

theorem Prog.Strict.bind {β : Type} {Good : (r : Req) × Resp r → Prop}
    {p : Prog Req Resp Out ε α} {f : α → Prog Req Resp Out ε β} (hp : p.Strict Good)
    (hf : ∀ a, (f a).Strict Good) : (p >>= f).Strict Good := by
  induction p with
  | ok a => exact hf a
  | err e => exact hp.elim
  | emit o next ih => exact ih hp
  | call r next ih => exact fun x => ⟨fun hx => ih x ((hp x).1 hx),fun hx => ((hp x).2 hx).bind⟩

theorem Prog.Strict.of_good {Good : (r : Req) × Resp r → Prop} {r : Req}
    {k : Resp r → Prog Req Resp Out ε α} (hr : ∀ x, Good ⟨r,x⟩) (hk : ∀ x, (k x).Strict Good) :
    (Prog.call r k).Strict Good :=
  fun x => ⟨fun _ => hk x,fun hn => absurd (hr x) hn⟩

theorem Prog.Strict.of_orElse {E : Type} {Good : (r : Req) × Resp r → Prop} {r : Req}
    {f : E → Prog Req Resp Out ε α} (g : Resp r → Except E α)
    (hgood : ∀ x, Good ⟨r,x⟩ ↔ ∃ a, g x = .ok a) (hf : ∀ e, (f e).Fails) :
    (Prog.call r (fun x => Prog.orElse (g x) f)).Strict Good := by
  intro x
  rw [hgood]
  change (_ → (Prog.orElse (g x) f).Strict Good) ∧ (_ → (Prog.orElse (g x) f).Fails)
  cases g x with
  | ok a => exact ⟨fun _ => trivial,fun h => absurd ⟨a,rfl⟩ h⟩
  | error e =>
    refine ⟨?_,fun _ => hf e⟩
    rintro ⟨_,h⟩
    cases h

theorem Returns.fails {p : Prog Req Resp Out ε α} {tr : List ((r : Req) × Resp r)} {os : List Out}
    {r : Except ε α} (h : Returns p tr os r) (hp : p.Fails) : ∃ e, r = .error e := by
  induction p generalizing tr os with
  | ok a => exact hp.elim
  | err e => exact ⟨e,h.of_err.2.2⟩
  | emit o next ih =>
    obtain ⟨_,_,h⟩ := h.of_emit
    exact ih h hp
  | call q next ih =>
    obtain ⟨x,_,_,h⟩ := h.of_call
    exact ih x h (hp x)

theorem Returns.strict {Good : (r : Req) × Resp r → Prop} {p : Prog Req Resp Out ε α}
    {tr : List ((r : Req) × Resp r)} {os : List Out} {r : Except ε α} (h : Returns p tr os r)
    (hp : p.Strict Good) : (∃ a, r = .ok a) ↔ ∀ x ∈ tr, Good x := by
  induction p generalizing tr os with
  | ok a =>
    obtain ⟨rfl,_,rfl⟩ := h.of_ok
    simp
  | err e => exact hp.elim
  | emit o next ih =>
    obtain ⟨_,_,h⟩ := h.of_emit
    exact ih h hp
  | call q next ih =>
    obtain ⟨x,tr',rfl,hx⟩ := h.of_call
    rw [List.forall_mem_cons]
    by_cases hgood : Good ⟨q,x⟩
    · simpa [hgood] using ih x hx ((hp x).1 hgood)
    · obtain ⟨e,rfl⟩ := hx.fails ((hp x).2 hgood)
      simp [hgood]

theorem Returns.strict_error {Good : (r : Req) × Resp r → Prop} {p : Prog Req Resp Out ε α}
    {tr : List ((r : Req) × Resp r)} {os : List Out} {r : Except ε α} (h : Returns p tr os r)
    (hp : p.Strict Good) : (∃ e, r = .error e) ↔ ∃ x ∈ tr, ¬ Good x := by
  have hstrict := h.strict hp
  have herror : (∃ e, r = .error e) ↔ ¬ ∃ a, r = .ok a := by
    cases r with
    | ok a => exact ⟨fun ⟨_,he⟩ => (by cases he),fun hn => absurd ⟨a,rfl⟩ hn⟩
    | error e => exact ⟨fun _ ⟨_,ha⟩ => (by cases ha),fun _ => ⟨e,rfl⟩⟩
  rw [herror, hstrict]
  simp only [not_forall, exists_prop]

def Prog.eval (answer : (r : Req) → Resp r) : Prog Req Resp Out ε α → Except ε α
  | .ok a => .ok a
  | .err e => .error e
  | .emit _ next => next.eval answer
  | .call r next => (next (answer r)).eval answer

section Eval
variable {β : Type} {answer : (r : Req) → Resp r}

@[simp] theorem Prog.eval_ok (a : α) : (Prog.ok a : Prog Req Resp Out ε α).eval answer = .ok a := rfl
@[simp] theorem Prog.eval_err (e : ε) : (Prog.err e : Prog Req Resp Out ε α).eval answer = .error e := rfl
@[simp] theorem Prog.eval_emit (o : Out) (p : Prog Req Resp Out ε α) :
    (Prog.emit o p).eval answer = p.eval answer := rfl
@[simp] theorem Prog.eval_call (r : Req) (k : Resp r → Prog Req Resp Out ε α) :
    (Prog.call r k).eval answer = (k (answer r)).eval answer := rfl

theorem Prog.eval_bind (p : Prog Req Resp Out ε α) (f : α → Prog Req Resp Out ε β) :
    (p >>= f).eval answer = p.eval answer >>= fun a => (f a).eval answer := by
  induction p with
  | ok a => rfl
  | err e => rfl
  | emit o p ih => exact ih
  | call r k ih => exact ih (answer r)

theorem Prog.eval_bind_ok {p : Prog Req Resp Out ε α} {f : α → Prog Req Resp Out ε β} {a : α}
    (h : p.eval answer = .ok a) : (p >>= f).eval answer = (f a).eval answer := by
  rw [Prog.eval_bind, h]
  rfl

end Eval

section EvalFrom
variable {σ β : Type}

/-- The result of `p` and the state it leaves, when `answer` answers every request. -/
def Prog.evalFrom (answer : σ → (r : Req) → Resp r × σ) : σ → Prog Req Resp Out ε α → Except ε α × σ
  | s, .ok a => (.ok a,s)
  | s, .err e => (.error e,s)
  | s, .emit _ next => next.evalFrom answer s
  | s, .call r next => (next (answer s r).1).evalFrom answer (answer s r).2

variable {answer : σ → (r : Req) → Resp r × σ} {s t : σ}

@[simp] theorem Prog.evalFrom_ok (a : α) : (Prog.ok a : Prog Req Resp Out ε α).evalFrom answer s = (.ok a,s) := by
  rw [Prog.evalFrom]

@[simp] theorem Prog.evalFrom_call (r : Req) (k : Resp r → Prog Req Resp Out ε α) :
    (Prog.call r k).evalFrom answer s = (k (answer s r).1).evalFrom answer (answer s r).2 := by
  rw [Prog.evalFrom]

theorem Prog.evalFrom_bind_ok {p : Prog Req Resp Out ε α} {f : α → Prog Req Resp Out ε β} {a : α}
    (h : p.evalFrom answer s = (.ok a,t)) : (p >>= f).evalFrom answer s = (f a).evalFrom answer t := by
  induction p generalizing s with
  | ok b =>
    rw [Prog.evalFrom_ok] at h
    cases h
    rfl
  | err e =>
    rw [Prog.evalFrom] at h
    cases h
  | emit o p ih =>
    rw [Prog.evalFrom] at h
    rw [emit_bind, Prog.evalFrom]
    exact ih h
  | call r k ih =>
    rw [Prog.evalFrom_call] at h
    rw [call_bind, Prog.evalFrom_call]
    exact ih _ h

end EvalFrom

/-- `p` runs by itself from one state to another, each request answered by `serve`. -/
inductive Exec {σ : Type} (serve : σ → (r : Req) → Resp r → σ → Prop) :
    σ → Prog Req Resp Out ε α → Except ε α → σ → Prop
  | ok (s : σ) (a : α) : Exec serve s (.ok a) (.ok a) s
  | err (s : σ) (e : ε) : Exec serve s (.err e) (.error e) s
  | emit {s t : σ} {o : Out} {p : Prog Req Resp Out ε α} {r : Except ε α}
      (h : Exec serve s p r t) : Exec serve s (.emit o p) r t
  | call {s u t : σ} {q : Req} {x : Resp q} {k : Resp q → Prog Req Resp Out ε α}
      {r : Except ε α} (hs : serve s q x u) (h : Exec serve u (k x) r t) : Exec serve s (.call q k) r t

namespace Exec
variable {σ : Type} {serve : σ → (r : Req) → Resp r → σ → Prop} {s t : σ} {r : Except ε α}

theorem of_ok {a : α} (h : Exec serve s (.ok a : Prog Req Resp Out ε α) r t) :
    r = .ok a ∧ t = s := by
  cases h
  exact ⟨rfl,rfl⟩

theorem of_emit {o : Out} {p : Prog Req Resp Out ε α} (h : Exec serve s (.emit o p) r t) :
    Exec serve s p r t := by
  cases h with
  | emit h => exact h

theorem of_call {q : Req} {k : Resp q → Prog Req Resp Out ε α} (h : Exec serve s (.call q k) r t) :
    ∃ x u, serve s q x u ∧ Exec serve u (k x) r t := by
  cases h with
  | call hs h => exact ⟨_,_,hs,h⟩

/-- What every answer to the program's requests keeps, the program keeps. -/
theorem invariant {I : σ → Prop} {P : Req → Prop} {p : Prog Req Resp Out ε α}
    (h : Exec serve s p r t) (hp : p.Asks P)
    (hkeep : ∀ s q x t, P q → serve s q x t → I s → I t) (hs : I s) : I t := by
  induction h with
  | ok s a => exact hs
  | err s e => exact hs
  | emit _ ih => exact ih hp hs
  | call hq _ ih => exact ih (hp.2 _) (hkeep _ _ _ _ hp.1 hq hs)

end Exec

inductive Chain {σ : Type} (serve : σ → (r : Req) → Resp r → σ → Prop) :
    σ → List ((r : Req) × Resp r) → σ → Prop
  | nil (s : σ) : Chain serve s [] s
  | cons {s u t : σ} {q : Req} {x : Resp q} {tr : List ((r : Req) × Resp r)}
      (hs : serve s q x u) (h : Chain serve u tr t) : Chain serve s (⟨q,x⟩ :: tr) t

namespace Chain
variable {σ : Type} {serve : σ → (r : Req) → Resp r → σ → Prop} {s t : σ}
  {tr : List ((r : Req) × Resp r)}

theorem append {u : σ} {tr' : List ((r : Req) × Resp r)} (h : Chain serve s tr u) (h' : Chain serve u tr' t) :
    Chain serve s (tr ++ tr') t := by
  induction h with
  | nil => exact h'
  | cons hs _ ih => exact .cons hs (ih h')

theorem of_nil (h : Chain serve s [] t) : t = s := by
  cases h
  rfl

theorem of_cons {q : Req} {x : Resp q} (h : Chain serve s (⟨q,x⟩ :: tr) t) :
    ∃ u, serve s q x u ∧ Chain serve u tr t := by
  cases h with
  | cons hs h => exact ⟨_,hs,h⟩

theorem of_one {q : Req} {x : Resp q} (h : Chain serve s [⟨q,x⟩] t) : serve s q x t := by
  obtain ⟨u,hs,hrest⟩ := h.of_cons
  rw [hrest.of_nil]
  exact hs

/-- Replies that determine each step determine the state at the end. -/
theorem unique {t' : σ} (hserve : ∀ s (q : Req) (x : Resp q) t t', serve s q x t → serve s q x t' → t = t')
    (h : Chain serve s tr t) (h' : Chain serve s tr t') : t = t' := by
  induction h with
  | nil => exact h'.of_nil.symm
  | cons hs _ ih =>
    obtain ⟨u,hs',hrest⟩ := h'.of_cons
    rw [hserve _ _ _ _ _ hs' hs] at hrest
    exact ih hrest

end Chain

end SlatedbCloudflare.Programs
