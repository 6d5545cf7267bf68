import Mathlib.Data.Sum.Basic
import SlatedbCloudflare.Library.Messages

/-! # Two groups of clients on one service

Clients of one group cannot tell whether the other group is there if the service
answers them alike in states that agree, and the other group keeps the agreement.
Every run of both groups is then, for the first, a run of its own.
-/
namespace SlatedbCloudflare.Isolation
open Programs Messages

variable {ι κ σ Req : Type} {Resp : Req → Type} {Out ε α : Type}

/-- Agreeing states answer the requests of `Own` alike, and those of `Foreign` keep
the agreement. -/
structure Separates (serve : σ → (r : Req) → Resp r → σ → Prop) (Agree : σ → σ → Prop)
    (Own Foreign : Req → Prop) : Prop where
  own : ∀ s u r x t, Own r → Agree s u → serve s r x t → ∃ w, serve u r x w ∧ Agree t w
  foreign : ∀ s u r x t, Foreign r → Agree s u → serve s r x t → Agree t u

section Executions
variable {serve : σ → (r : Req) → Resp r → σ → Prop} {Agree : σ → σ → Prop} {Own Foreign : Req → Prop}
  {p : Prog Req Resp Out ε α} {r : Except ε α} {s t u : σ}

theorem Separates.exec_own (h : Separates serve Agree Own Foreign) (hexec : Exec serve s p r t)
    (hp : p.Asks Own) (hagree : Agree s u) : ∃ w, Exec serve u p r w ∧ Agree t w := by
  induction hexec generalizing u with
  | ok s a => exact ⟨u,.ok u a,hagree⟩
  | err s e => exact ⟨u,.err u e,hagree⟩
  | emit _ ih =>
    obtain ⟨w,hw,ht⟩ := ih hp hagree
    exact ⟨w,.emit hw,ht⟩
  | call hs _ ih =>
    obtain ⟨v,hv,hagree'⟩ := h.own _ _ _ _ _ hp.1 hagree hs
    obtain ⟨w,hw,ht⟩ := ih (hp.2 _) hagree'
    exact ⟨w,.call hv hw,ht⟩

theorem Separates.exec_foreign (h : Separates serve Agree Own Foreign) (hexec : Exec serve s p r t)
    (hp : p.Asks Foreign) (hagree : Agree s u) : Agree t u := by
  have hkeep : ∀ s q x t, Foreign q → serve s q x t → Agree s u → Agree t u :=
    fun s q x t hq hs hs' => h.foreign s u q x t hq hs' hs
  exact hexec.invariant (I := fun s => Agree s u) hp hkeep hagree

end Executions

def shown (e : Event ι σ Req Resp) : ι × ℕ × ((r : Req) × Resp r) := (e.caller,e.index,e.answer)

def shownLeft (e : Event (ι ⊕ κ) σ Req Resp) : Option (ι × ℕ × ((r : Req) × Resp r)) :=
  e.caller.getLeft?.map (fun i => (i,e.index,e.answer))

/-- The system without the second group, on a service state of its own. -/
def left (t : System (ι ⊕ κ) σ Req Resp Out ε α) (u : σ) : System ι σ Req Resp Out ε α where
  service := u
  client i := t.client (.inl i)
  requests := {x | (.inl x.1,x.2) ∈ t.requests}
  replies := {x | (.inl x.1,x.2) ∈ t.replies}

theorem left_start (s u : σ) (p : ι → Prog Req Resp Out ε α) (q : κ → Prog Req Resp Out ε α) :
    left (start s (Sum.elim p q)) u = start u p := rfl

section Frames
variable (t : System (ι ⊕ κ) σ Req Resp Out ε α) (u v : σ) (i : ι) (j : κ)

theorem left_request (n : ℕ) (r : Req) : left { t with requests := insert (.inl i,n,r) t.requests } u =
    { left t u with requests := insert (i,n,r) (left t u).requests } := by
  simp [left, Set.ext_iff, Prod.ext_iff]

theorem left_foreign_request (n : ℕ) (r : Req) :
    left { t with requests := insert (.inr j,n,r) t.requests } u = left t u := by
  simp [left]

theorem left_served (n : ℕ) (r : Req) (x : Resp r) : left { t with
      service := v
      requests := t.requests \ {(.inl i,n,r)}
      replies := insert (.inl i,n,⟨r,x⟩) t.replies } u =
    { left t u with
      requests := (left t u).requests \ {(i,n,r)}
      replies := insert (i,n,⟨r,x⟩) (left t u).replies } := by
  simp [left, Set.ext_iff, Prod.ext_iff]

theorem left_foreign_served (n : ℕ) (r : Req) (x : Resp r) : left { t with
      service := v
      requests := t.requests \ {(.inr j,n,r)}
      replies := insert (.inr j,n,⟨r,x⟩) t.replies } u = left t u := by
  simp [left]

variable [DecidableEq ι] [DecidableEq κ] (c : Client Req Resp Out ε α)

theorem left_own : left { t with client := Function.update t.client (.inl i) c } u =
    { left t u with client := Function.update (left t u).client i c } := by
  have hclient : (Function.update t.client (.inl i) c) ∘ .inl = Function.update (t.client ∘ .inl) i c :=
    Function.update_comp_eq_of_injective t.client Sum.inl_injective i c
  exact congrArg (fun f => { left t u with client := f }) hclient

theorem left_foreign : left { t with client := Function.update t.client (.inr j) c } u = left t u := by
  have hclient : (Function.update t.client (.inr j) c) ∘ .inl = t.client ∘ .inl := by
    funext k
    exact Function.update_of_ne Sum.inl_ne_inr _ _
  exact congrArg (fun f => { left t u with client := f }) hclient

end Frames

variable [DecidableEq ι] [DecidableEq κ]
variable {V : Service σ Req Resp} {Agree : σ → σ → Prop} {Own Foreign : Req → Prop}

theorem Separates.step (h : Separates V.serve Agree Own Foreign)
    {t w : System (ι ⊕ κ) σ Req Resp Out ε α} {ev : List (Event (ι ⊕ κ) σ Req Resp)} {u : σ}
    (hs : Step V t ev w) (hagree : Agree t.service u)
    (hown : ∀ e ∈ ev, ∀ i, e.caller = .inl i → Own e.req)
    (hforeign : ∀ e ∈ ev, ∀ j, e.caller = .inr j → Foreign e.req) :
    ∃ ev' v, Run V (left t u) ev' (left w v) ∧ Agree w.service v ∧
      ev'.map shown = ev.filterMap shownLeft := by
  have hstay : Run V (left t u) [] (left t u) := .refl
  cases hs with
  | @emit i o p n hc =>
    refine ⟨[],u,?_,hagree,rfl⟩
    cases i with
    | inl i =>
      rw [left_own]
      exact hstay.step (.emit (left t u) i hc)
    | inr j => rwa [left_foreign]
  | @send i r k n hc =>
    refine ⟨[],u,?_,hagree,rfl⟩
    cases i with
    | inl i =>
      have heq := left_own { t with requests := insert (.inl i,n,r) t.requests } u i ⟨.call r k,n + 1,true⟩
      rw [left_request] at heq
      exact heq ▸ hstay.step (.send (left t u) i hc)
    | inr j =>
      have heq := left_foreign { t with requests := insert (.inr j,n,r) t.requests } u j ⟨.call r k,n + 1,true⟩
      rw [left_foreign_request] at heq
      exact heq ▸ hstay
  | @serve i n r x s' hr hv =>
    cases i with
    | inl i =>
      obtain ⟨v,hv',hagree'⟩ := h.own _ _ _ _ _ (hown _ (List.mem_singleton.mpr rfl) i rfl) hagree hv
      refine ⟨[⟨i,n,r,x,u,v⟩],v,?_,hagree',rfl⟩
      rw [left_served]
      exact hstay.step (.serve (left t u) i hr hv')
    | inr j =>
      have hagree' := h.foreign _ _ _ _ _ (hforeign _ (List.mem_singleton.mpr rfl) j rfl) hagree hv
      refine ⟨[],u,?_,hagree',rfl⟩
      rwa [left_foreign_served]
  | @deliver i r k n x hc hx =>
    refine ⟨[],u,?_,hagree,rfl⟩
    cases i with
    | inl i =>
      rw [left_own]
      exact hstay.step (.deliver (left t u) i hc hx)
    | inr j => rwa [left_foreign]
  | @lose i r k n x hc hx =>
    refine ⟨[],u,?_,hagree,rfl⟩
    cases i with
    | inl i =>
      rw [left_own]
      exact hstay.step (.lose (left t u) i hc hx)
    | inr j => rwa [left_foreign]

/-- What a run of both groups shows to the first, one of its own runs shows as well. -/
theorem Separates.run (h : Separates V.serve Agree Own Foreign) {s u : σ}
    {p : ι → Prog Req Resp Out ε α} {q : κ → Prog Req Resp Out ε α}
    {es : List (Event (ι ⊕ κ) σ Req Resp)} {t : System (ι ⊕ κ) σ Req Resp Out ε α}
    (hr : Run V (start s (Sum.elim p q)) es t) (hagree : Agree s u) (hp : ∀ i, (p i).Asks Own)
    (hq : ∀ j, (q j).Asks Foreign) :
    ∃ es' v, Run V (start u p) es' (left t v) ∧ Agree t.service v ∧
      es'.map shown = es.filterMap shownLeft := by
  have hown : ∀ e ∈ es, ∀ i, e.caller = .inl i → Own e.req :=
    fun e he i hi => hr.asked (hp i) e he hi
  have hforeign : ∀ e ∈ es, ∀ j, e.caller = .inr j → Foreign e.req :=
    fun e he j hj => hr.asked (hq j) e he hj
  rw [← left_start s u p q]
  have hstart : Agree (start s (Sum.elim p q)).service u := hagree
  generalize start s (Sum.elim p q) = s₀ at hr hstart
  induction hr with
  | refl => exact ⟨[],u,.refl,hstart,rfl⟩
  | @step es ev t w hr ht ih =>
    obtain ⟨hown₁,hown₂⟩ := List.forall_mem_append.mp hown
    obtain ⟨hforeign₁,hforeign₂⟩ := List.forall_mem_append.mp hforeign
    obtain ⟨es',v,hrun,hagree',hshown⟩ := ih hown₁ hforeign₁
    obtain ⟨ev',v',hlast,hagree'',hlater⟩ := h.step ht hagree' hown₂ hforeign₂
    refine ⟨es' ++ ev',v',hrun.trans hlast,hagree'',?_⟩
    rw [List.map_append, List.filterMap_append, hshown, hlater]

/-- Every run of both groups has a counterpart without the second, in which the clients
of the first come equally far with the same results. -/
def SameResults (V : Service σ Req Resp) (s : σ) (p : ι → Prog Req Resp Out ε α)
    (q : κ → Prog Req Resp Out ε α) : Prop :=
  ∀ es t, Run V (start s (Sum.elim p q)) es t →
    ∃ ds u, Run V (start s p) ds u ∧ ∀ i, u.client i = t.client (.inl i)

/-- The counterpart also gives each of their requests the same reply, in the same order. -/
def SameReplies (V : Service σ Req Resp) (s : σ) (p : ι → Prog Req Resp Out ε α)
    (q : κ → Prog Req Resp Out ε α) : Prop :=
  ∀ es t, Run V (start s (Sum.elim p q)) es t →
    ∃ ds u, Run V (start s p) ds u ∧ (∀ i, u.client i = t.client (.inl i)) ∧
      ds.map shown = es.filterMap shownLeft

theorem SameReplies.sameResults {s : σ} {p : ι → Prog Req Resp Out ε α} {q : κ → Prog Req Resp Out ε α}
    (h : SameReplies V s p q) : SameResults V s p q := by
  intro es t hr
  obtain ⟨ds,u,hu,hclient,_⟩ := h es t hr
  exact ⟨ds,u,hu,hclient⟩

theorem Separates.sameReplies (h : Separates V.serve Agree Own Foreign) {s : σ}
    {p : ι → Prog Req Resp Out ε α} {q : κ → Prog Req Resp Out ε α} (hagree : Agree s s)
    (hp : ∀ i, (p i).Asks Own) (hq : ∀ j, (q j).Asks Foreign) : SameReplies V s p q := by
  intro es t hr
  obtain ⟨ds,v,hrun,_,hshown⟩ := h.run hr hagree hp hq
  exact ⟨ds,left t v,hrun,fun _ => rfl,hshown⟩

def Keeps (V : Service σ Req Resp) (I : σ → Prop) (r : Req) : Prop := ∀ s x t, V.serve s r x t → I s → I t

/-- A client of the second group changes the service, and then one of the first sees
what it never sees alone, where its own requests keep `I`. -/
theorem not_sameResults {p : ι → Prog Req Resp Out ε α} {q : κ → Prog Req Resp Out ε α} {i : ι} {j : κ}
    {s w w' : σ} {es es' : List (Event (ι ⊕ κ) σ Req Resp)} {m n : ℕ} {rest : Prog Req Resp Out ε α}
    {r : Except ε α} {I : σ → Prop} (hwrite : Alone V (.inr j) s 0 (q j) es w m rest)
    (hread : Alone V (.inl i) w 0 (p i) es' w' n (.ofResult r)) (hI : I s)
    (hkeep : (p i).Asks (Keeps V I))
    (hnever : ∀ tr os, Returns (p i) tr os r →
      ¬ ∀ x ∈ tr, V.lost x.1 x.2 ∨ ∃ s t, I s ∧ V.serve s x.1 x.2 t) :
    ¬ SameResults V s p q := by
  intro hsame
  obtain ⟨t,ht,htw,_,hframe⟩ := hwrite.run (start s (Sum.elim p q)) rfl rfl
  have hidle : ∀ k, t.client (.inl k) = ⟨p k,0,false⟩ := fun k => hframe _ Sum.inl_ne_inr
  obtain ⟨t',ht',_,hresult,hframe'⟩ := hread.run t htw (hidle i)
  obtain ⟨ds,u,hu,hclient⟩ := hsame _ t' (ht.trans ht')
  -- alone, no other call can have been made
  have hcaller : ∀ e ∈ ds, e.caller = i := by
    intro e he
    by_contra hne
    obtain ⟨tr,os,haccount⟩ := hu.account e.caller
    have hunmoved : u.client e.caller = ⟨p e.caller,0,false⟩ := by
      rw [hclient, hframe' _ (fun h => hne (Sum.inl_injective h)), hidle]
    have hlt := (haccount.served e he rfl).lt
    have hcalls := haccount.calls
    rw [hunmoved] at hlt hcalls
    simp only [Bool.toNat_false] at hlt hcalls
    omega
  have hkept : ∀ e ∈ ds, I e.before := by
    have hevents := hu.invariant hI fun e he hserve => hu.asked hkeep e he (hcaller e he) _ _ _ hserve
    exact fun e he => (hevents.2 e he).1
  have hreturned : (u.client i).prog = .ofResult r := by rw [hclient, hresult]
  obtain ⟨tr,os,hreturns,hhistory,_⟩ := hu.history hreturned
  refine hnever tr os hreturns fun x hx => ?_
  by_cases hlost : V.lost x.1 x.2
  · exact .inl hlost
  · obtain ⟨e,he,_,rfl⟩ := hhistory.answer_mem hx hlost
    exact .inr ⟨e.before,e.after,hkept e he,hhistory.serves e he⟩

end SlatedbCloudflare.Isolation
