import SlatedbCloudflare.Library.Histories
import SlatedbCloudflare.Library.Messages

/-! # Services told as key-value stores

The state of a service shows a store, and answering a request does to that store what
some commands do. A run of clients and the service is then a history of the store: the
commands of its events, one after another. The commands of one client are those of the
events that it caused.
-/
namespace SlatedbCloudflare.Narratives
open Programs Messages Histories

section Lists
variable {α β : Type} {f : α → ℕ} {g : α → List β}

end Lists

variable {σ Req : Type} {Resp : Req → Type} {N K V : Type}

section Narratives
variable [DecidableEq N] [DecidableEq K] {serve : σ → (r : Req) → Resp r → σ → Prop} {keys : Keys K}
  {view : σ → Store N K V} {tell : σ → (r : Req) → Resp r → σ → List (Command N K V)} {s t : σ}
  {tr : List ((r : Req) × Resp r)} {cs : List (Command N K V)}

/-- The commands take the store that one state shows to the one that the other shows. -/
def Leads (keys : Keys K) (view : σ → Store N K V) (s : σ) (cs : List (Command N K V)) (t : σ) : Prop :=
  Legal keys (view s) cs ∧ outcome (view s) cs = view t

theorem Leads.nil (s : σ) : Leads keys view s [] s := ⟨trivial,rfl⟩

theorem Leads.append {u : σ} {cs' : List (Command N K V)} (h : Leads keys view s cs t) (h' : Leads keys view t cs' u) :
    Leads keys view s (cs ++ cs') u := by
  obtain ⟨hlegal,hout⟩ := h
  obtain ⟨hlegal',hout'⟩ := h'
  constructor
  · rw [legal_append, hout]
    exact ⟨hlegal,hlegal'⟩
  · rw [outcome_append, hout]
    exact hout'

inductive Narrative (serve : σ → (r : Req) → Resp r → σ → Prop)
    (tell : σ → (r : Req) → Resp r → σ → List (Command N K V)) :
    σ → List ((r : Req) × Resp r) → List (Command N K V) → σ → Prop
  | nil (s : σ) : Narrative serve tell s [] [] s
  | cons {s u t : σ} {r : Req} {x : Resp r} {tr : List ((r : Req) × Resp r)} {cs : List (Command N K V)}
      (hs : serve s r x u) (h : Narrative serve tell u tr cs t) :
      Narrative serve tell s (⟨r,x⟩ :: tr) (tell s r x u ++ cs) t

omit [DecidableEq N] [DecidableEq K] in
theorem Narrative.of_nil (h : Narrative serve tell s [] cs t) : cs = [] ∧ t = s := by
  cases h
  exact ⟨rfl,rfl⟩

omit [DecidableEq N] [DecidableEq K] in
theorem Narrative.of_one {r : Req} {x : Resp r} (h : Narrative serve tell s [⟨r,x⟩] cs t) :
    serve s r x t ∧ cs = tell s r x t := by
  cases h with
  | cons hs h =>
    obtain ⟨rfl,rfl⟩ := h.of_nil
    exact ⟨hs,List.append_nil _⟩

end Narratives

section Runs
variable {ι Out ε α : Type} [DecidableEq ι] {U : Service σ Req Resp} {s : σ} {p : ι → Prog Req Resp Out ε α}
  {es : List (Event ι σ Req Resp)} {t : System ι σ Req Resp Out ε α} {i : ι}

/-- Every request of the program satisfies `P` at its place, the first one being the `n`-th. -/
def Places (P : ℕ → Req → Prop) : ℕ → Prog Req Resp Out ε α → Prop
  | _, .ok _ => True
  | _, .err _ => True
  | n, .emit _ next => Places P n next
  | n, .call r next => P n r ∧ ∀ x, Places P (n + 1) (next x)

omit [DecidableEq ι] in
theorem Places.bind {β : Type} {P : ℕ → Req → Prop} {n : ℕ} {p : Prog Req Resp Out ε α} {f : α → Prog Req Resp Out ε β}
    (h : Places P n p) (hf : ∀ tr os a, Returns p tr os (.ok a) → Places P (n + tr.length) (f a)) :
    Places P n (p >>= f) := by
  induction p generalizing n with
  | ok a => exact hf [] [] a (.refl _)
  | err e => trivial
  | emit o next ih => exact ih h fun tr os a hreturns => hf tr (o :: os) a (.emit hreturns)
  | call r next ih =>
    refine ⟨h.1,fun x => ih x (h.2 x) fun tr os a hreturns => ?_⟩
    have hrest := hf (⟨r,x⟩ :: tr) os a (.call hreturns)
    rw [List.length_cons, Nat.add_comm tr.length 1, ← Nat.add_assoc] at hrest
    exact hrest

omit [DecidableEq ι] in
theorem Places.map {β : Type} {P : ℕ → Req → Prop} {n : ℕ} {p : Prog Req Resp Out ε α} (h : Places P n p) (f : α → β) :
    Places P n (p >>= fun a => .ok (f a)) := by
  induction p generalizing n with
  | ok a => trivial
  | err e => trivial
  | emit o next ih => exact ih h
  | call r next ih => exact ⟨h.1,fun x => ih x (h.2 x)⟩

omit [DecidableEq ι] in
theorem Places.consumed {P : ℕ → Req → Prop} {n : ℕ} {p q : Prog Req Resp Out ε α} {tr : List ((r : Req) × Resp r)}
    {os : List Out} (h : Places P n p) (hc : Consumes p tr os q) : Places P (n + tr.length) q := by
  induction hc generalizing n with
  | refl p => exact h
  | emit _ ih => exact ih h
  | call _ ih =>
    have hrest := ih (h.2 _)
    rw [Nat.add_assoc, Nat.add_comm 1] at hrest
    exact hrest

omit [DecidableEq ι] in
theorem Places.get {P : ℕ → Req → Prop} {n : ℕ} {p q : Prog Req Resp Out ε α} {tr : List ((r : Req) × Resp r)}
    {os : List Out} (h : Places P n p) (hc : Consumes p tr os q) {m : ℕ} {x : (r : Req) × Resp r} (hx : tr[m]? = some x) :
    P (n + m) x.1 := by
  obtain ⟨os',k,htake⟩ := hc.take hx
  have hlt := (List.getElem?_eq_some_iff.mp hx).1
  have hplaced := (h.consumed htake).1
  rw [List.length_take, Nat.min_eq_left hlt.le] at hplaced
  exact hplaced

def own (block : Event ι σ Req Resp → List (Command N K V)) (es : List (Event ι σ Req Resp)) (i : ι) :
    List (Command N K V) := (es.filter (fun e => e.caller = i)).flatMap block

variable {block : Event ι σ Req Resp → List (Command N K V)}

/-- The commands of the one event of a client that has the place `n`, or none. -/
def At (block : Event ι σ Req Resp → List (Command N K V)) (es : List (Event ι σ Req Resp)) (i : ι) (n : ℕ)
    (cs : List (Command N K V)) : Prop :=
  (cs = [] ∧ ¬ ∃ e ∈ es, e.caller = i ∧ e.index = n) ∨ ∃ e ∈ es, e.caller = i ∧ e.index = n ∧ cs = block e

omit [DecidableEq ι] in
theorem At.holds {n : ℕ} {cs : List (Command N K V)} (h : At block es i n cs) {P : List (Command N K V) → Prop}
    (hnil : P []) (hblock : ∀ e ∈ es, e.caller = i → e.index = n → P (block e)) : P cs := by
  rcases h with ⟨rfl,_⟩ | ⟨e,he,hi,hn,rfl⟩
  · exact hnil
  · exact hblock e he hi hn

end Runs

end SlatedbCloudflare.Narratives
