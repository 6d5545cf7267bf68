import Mathlib.Data.Set.Insert
import Mathlib.Data.List.Pairwise
import SlatedbCloudflare.Library.Programs

/-! # Programs calling a service by messages

Any number of clients run their programs against one service. A request travels
to the service, is served at most once and at any later time, and its reply
travels back. A waiting client may instead see the failure of its call, and the
request it gave up may still be served afterwards. The result of this module is
the account of one client inside an arbitrary run: which replies its program
consumed, and which service event each of them came from.
-/
namespace SlatedbCloudflare.Messages
open Programs

/-- `serve s r x t`: in state `s` the service may answer `r` by `x` and move to
`t`. `lost r x`: `x` is how the failure of the call `r` looks to its caller. -/
structure Service (σ Req : Type) (Resp : Req → Type) where
  serve : σ → (r : Req) → Resp r → σ → Prop
  lost : (r : Req) → Resp r → Prop

structure Event (ι σ Req : Type) (Resp : Req → Type) where
  caller : ι
  index : ℕ
  req : Req
  reply : Resp req
  before : σ
  after : σ

variable {ι σ Req : Type} {Resp : Req → Type} {Out ε α : Type}

def Event.answer (e : Event ι σ Req Resp) : (r : Req) × Resp r := ⟨e.req,e.reply⟩

/-- What is left of a client's program, how many calls it has made, and whether
it is waiting for the last of them. -/
structure Client (Req : Type) (Resp : Req → Type) (Out ε α : Type) where
  prog : Prog Req Resp Out ε α
  calls : ℕ
  waiting : Bool

structure System (ι σ Req : Type) (Resp : Req → Type) (Out ε α : Type) where
  service : σ
  client : ι → Client Req Resp Out ε α
  requests : Set (ι × ℕ × Req)
  replies : Set (ι × ℕ × ((r : Req) × Resp r))

def start (s : σ) (p : ι → Prog Req Resp Out ε α) : System ι σ Req Resp Out ε α where
  service := s
  client i := ⟨p i,0,false⟩
  requests := ∅
  replies := ∅

variable [DecidableEq ι]

inductive Step (V : Service σ Req Resp) : System ι σ Req Resp Out ε α →
    List (Event ι σ Req Resp) → System ι σ Req Resp Out ε α → Prop
  | emit (s : System ι σ Req Resp Out ε α) (i : ι) {o : Out} {p : Prog Req Resp Out ε α} {n : ℕ}
      (hc : s.client i = ⟨.emit o p,n,false⟩) :
      Step V s [] { s with client := Function.update s.client i ⟨p,n,false⟩ }
  | send (s : System ι σ Req Resp Out ε α) (i : ι) {r : Req} {k : Resp r → Prog Req Resp Out ε α}
      {n : ℕ} (hc : s.client i = ⟨.call r k,n,false⟩) :
      Step V s [] { s with
        client := Function.update s.client i ⟨.call r k,n + 1,true⟩
        requests := insert (i,n,r) s.requests }
  | serve (s : System ι σ Req Resp Out ε α) (i : ι) {n : ℕ} {r : Req} {x : Resp r} {t : σ}
      (hr : (i,n,r) ∈ s.requests) (hs : V.serve s.service r x t) :
      Step V s [⟨i,n,r,x,s.service,t⟩] { s with
        service := t
        requests := s.requests \ {(i,n,r)}
        replies := insert (i,n,⟨r,x⟩) s.replies }
  | deliver (s : System ι σ Req Resp Out ε α) (i : ι) {r : Req}
      {k : Resp r → Prog Req Resp Out ε α} {n : ℕ} {x : Resp r}
      (hc : s.client i = ⟨.call r k,n + 1,true⟩) (hx : (i,n,⟨r,x⟩) ∈ s.replies) :
      Step V s [] { s with client := Function.update s.client i ⟨k x,n + 1,false⟩ }
  | lose (s : System ι σ Req Resp Out ε α) (i : ι) {r : Req}
      {k : Resp r → Prog Req Resp Out ε α} {n : ℕ} {x : Resp r}
      (hc : s.client i = ⟨.call r k,n,true⟩) (hx : V.lost r x) :
      Step V s [] { s with client := Function.update s.client i ⟨k x,n,false⟩ }

inductive Run (V : Service σ Req Resp) (s : System ι σ Req Resp Out ε α) :
    List (Event ι σ Req Resp) → System ι σ Req Resp Out ε α → Prop
  | refl : Run V s [] s
  | step {es ev : List (Event ι σ Req Resp)} {t u : System ι σ Req Resp Out ε α}
      (h : Run V s es t) (ht : Step V t ev u) : Run V s (es ++ ev) u

def Asked (c : Client Req Resp Out ε α) (tr : List ((r : Req) × Resp r)) (n : ℕ) (r : Req) : Prop :=
  (∃ x, tr[n]? = some x ∧ x.1 = r) ∨
    (c.waiting = true ∧ n = tr.length ∧ ∃ k, c.prog = .call r k)

/-- What one client's history says about the run it is part of: `tr` are the
replies its program consumed, `os` the outputs it recorded. -/
structure Account (V : Service σ Req Resp) (p : Prog Req Resp Out ε α)
    (es : List (Event ι σ Req Resp)) (s : System ι σ Req Resp Out ε α) (i : ι)
    (tr : List ((r : Req) × Resp r)) (os : List Out) : Prop where
  consumes : Consumes p tr os (s.client i).prog
  calls : (s.client i).calls = tr.length + (s.client i).waiting.toNat
  pending : (s.client i).waiting = true → ∃ r k, (s.client i).prog = .call r k
  answers : ∀ n x, tr[n]? = some x →
    V.lost x.1 x.2 ∨ ∃ e ∈ es, e.caller = i ∧ e.index = n ∧ e.answer = x
  served : ∀ e ∈ es, e.caller = i → Asked (s.client i) tr e.index e.req
  asked : ∀ n r, (i,n,r) ∈ s.requests →
    Asked (s.client i) tr n r ∧ ∀ e ∈ es, e.caller = i → e.index ≠ n
  replied : ∀ n x, (i,n,x) ∈ s.replies → ∃ e ∈ es, e.caller = i ∧ e.index = n ∧ e.answer = x

omit [DecidableEq ι] in
theorem Asked.unique {c : Client Req Resp Out ε α} {tr : List ((r : Req) × Resp r)} {n : ℕ}
    {r r' : Req} (h : Asked c tr n r) (h' : Asked c tr n r') : r = r' := by
  rcases h with ⟨x,hx,rfl⟩ | ⟨_,hn,k,hk⟩ <;> rcases h' with ⟨y,hy,rfl⟩ | ⟨_,hn',k',hk'⟩
  · rw [hx] at hy
    rw [Option.some.inj hy]
  · subst hn'
    simp at hx
  · subst hn
    simp at hy
  · rw [hk] at hk'
    injection hk'

omit [DecidableEq ι] in
theorem Asked.lt {c : Client Req Resp Out ε α} {tr : List ((r : Req) × Resp r)} {n : ℕ} {r : Req}
    (h : Asked c tr n r) : n < tr.length + c.waiting.toNat := by
  rcases h with ⟨x,hx,_⟩ | ⟨hw,hn,_⟩
  · have hlt : n < tr.length := (List.getElem?_eq_some_iff.mp hx).1
    omega
  · rw [hw,hn]
    simp

omit [DecidableEq ι] in
theorem Asked.answered {r : Req} {k : Resp r → Prog Req Resp Out ε α} {n m : ℕ} {r' : Req}
    {tr : List ((r : Req) × Resp r)} {x : Resp r} {d : Client Req Resp Out ε α}
    (h : Asked ⟨.call r k,n,true⟩ tr m r') : Asked d (tr ++ [⟨r,x⟩]) m r' := by
  left
  rcases h with ⟨y,hy,rfl⟩ | ⟨_,rfl,k',hk⟩
  · have hlt : m < tr.length := (List.getElem?_eq_some_iff.mp hy).1
    exact ⟨y,by rw [List.getElem?_append_left hlt,hy],rfl⟩
  · injection hk with hr _
    exact ⟨⟨r,x⟩,by simp,hr⟩

omit [DecidableEq ι] in
private theorem account_start (V : Service σ Req Resp) (s : σ) (p : ι → Prog Req Resp Out ε α)
    (i : ι) : Account V (p i) [] (start s p) i [] [] where
  consumes := .refl _
  calls := rfl
  pending h := by simp [start] at h
  answers n x h := by simp at h
  served e h := by simp at h
  asked n r h := by simp [start] at h
  replied n x h := by simp [start] at h

private theorem account_take {V : Service σ Req Resp} {p : Prog Req Resp Out ε α}
    {es : List (Event ι σ Req Resp)} {s : System ι σ Req Resp Out ε α} {i : ι}
    {tr : List ((r : Req) × Resp r)} {os : List Out} {r : Req}
    {k : Resp r → Prog Req Resp Out ε α} {n : ℕ} {x : Resp r} (h : Account V p es s i tr os)
    (hc : s.client i = ⟨.call r k,n,true⟩)
    (hx : V.lost r x ∨ ∃ e ∈ es, e.caller = i ∧ e.index = tr.length ∧ e.answer = ⟨r,x⟩) :
    Account V p es { s with client := Function.update s.client i ⟨k x,n,false⟩ } i
      (tr ++ [⟨r,x⟩]) os := by
  have hn : n = tr.length + 1 := by simpa [hc] using h.calls
  have hcons := h.consumes
  rw [hc] at hcons
  constructor
  · simpa using hcons.snoc_call x
  · simp [hn]
  · intro hw
    simp at hw
  · intro m y hy
    rcases Nat.lt_or_ge m tr.length with hlt | hge
    · rw [List.getElem?_append_left hlt] at hy
      exact h.answers m y hy
    · have hm : m = tr.length := by
        have hl := (List.getElem?_eq_some_iff.mp hy).1
        simp at hl
        omega
      subst hm
      simp at hy
      subst hy
      exact hx
  · intro e he hi
    have ha := h.served e he hi
    rw [hc] at ha
    simpa using ha.answered
  · intro m r' hr
    obtain ⟨ha,hne⟩ := h.asked m r' hr
    rw [hc] at ha
    exact ⟨by simpa using ha.answered,hne⟩
  · exact h.replied

omit [DecidableEq ι] in
private theorem account_frame {V : Service σ Req Resp} {p : Prog Req Resp Out ε α}
    {es ev : List (Event ι σ Req Resp)} {s t : System ι σ Req Resp Out ε α} {i : ι}
    {tr : List ((r : Req) × Resp r)} {os : List Out} (h : Account V p es s i tr os)
    (hc : t.client i = s.client i) (he : ∀ e ∈ ev, e.caller ≠ i)
    (hr : ∀ n r, (i,n,r) ∈ t.requests → (i,n,r) ∈ s.requests)
    (hx : ∀ n x, (i,n,x) ∈ t.replies → (i,n,x) ∈ s.replies) :
    Account V p (es ++ ev) t i tr os := by
  have hev : ∀ e ∈ es ++ ev, e.caller = i → e ∈ es := by
    intro e hm hi
    rcases List.mem_append.mp hm with hm | hm
    · exact hm
    · exact absurd hi (he e hm)
  constructor
  · rw [hc]; exact h.consumes
  · rw [hc]; exact h.calls
  · rw [hc]; exact h.pending
  · intro n x hn
    rcases h.answers n x hn with hl | ⟨e,hm,heq⟩
    · exact .inl hl
    · exact .inr ⟨e,List.mem_append_left _ hm,heq⟩
  · intro e hm hi
    rw [hc]
    exact h.served e (hev e hm hi) hi
  · intro n r hm
    obtain ⟨ha,hne⟩ := h.asked n r (hr n r hm)
    exact ⟨by rw [hc]; exact ha,fun e he' hi => hne e (hev e he' hi) hi⟩
  · intro n x hm
    obtain ⟨e,he',heq⟩ := h.replied n x (hx n x hm)
    exact ⟨e,List.mem_append_left _ he',heq⟩

omit [DecidableEq ι] in
private theorem account_serve {V : Service σ Req Resp} {p : Prog Req Resp Out ε α}
    {es : List (Event ι σ Req Resp)} {s : System ι σ Req Resp Out ε α} {i : ι}
    {tr : List ((r : Req) × Resp r)} {os : List Out} {n : ℕ} {r : Req} {x : Resp r} {t : σ}
    (h : Account V p es s i tr os) (hr : (i,n,r) ∈ s.requests) :
    Account V p (es ++ [⟨i,n,r,x,s.service,t⟩]) { s with
      service := t
      requests := s.requests \ {(i,n,r)}
      replies := insert (i,n,⟨r,x⟩) s.replies } i tr os := by
  obtain ⟨hasked,hfresh⟩ := h.asked n r hr
  constructor
  · exact h.consumes
  · exact h.calls
  · exact h.pending
  · intro m y hy
    rcases h.answers m y hy with hl | ⟨e,hm,heq⟩
    · exact .inl hl
    · exact .inr ⟨e,List.mem_append_left _ hm,heq⟩
  · intro e he hi
    rcases List.mem_append.mp he with he | he
    · exact h.served e he hi
    · rw [List.mem_singleton] at he
      subst he
      exact hasked
  · rintro m r' ⟨hm,hne⟩
    obtain ⟨ha,hold⟩ := h.asked m r' hm
    refine ⟨ha,?_⟩
    intro e he hi
    rcases List.mem_append.mp he with he | he
    · exact hold e he hi
    · rw [List.mem_singleton] at he
      subst he
      rintro rfl
      exact hne (by rw [Asked.unique ha hasked]; rfl)
  · intro m y hy
    rcases Set.mem_insert_iff.mp hy with heq | hm
    · cases heq
      exact ⟨_,List.mem_append_right _ (List.mem_singleton.mpr rfl),rfl,rfl,rfl⟩
    · obtain ⟨e,he,heq⟩ := h.replied m y hm
      exact ⟨e,List.mem_append_left _ he,heq⟩

theorem Step.account {V : Service σ Req Resp} {p : Prog Req Resp Out ε α}
    {es ev : List (Event ι σ Req Resp)} {s t : System ι σ Req Resp Out ε α} {i : ι}
    {tr : List ((r : Req) × Resp r)} {os : List Out} (hs : Step V s ev t)
    (h : Account V p es s i tr os) : ∃ tr' os', Account V p (es ++ ev) t i tr' os' := by
  cases hs with
  | @emit j o q n hc =>
    by_cases hij : i = j
    · subst hij
      have hcons := h.consumes
      rw [hc] at hcons
      refine ⟨tr,os ++ [o],?_⟩
      rw [List.append_nil]
      constructor
      · simpa using hcons.snoc_emit
      · simpa [hc] using h.calls
      · intro hw
        simp at hw
      · exact h.answers
      · intro e he hi
        simpa [Asked,hc] using h.served e he hi
      · intro m r hr
        obtain ⟨ha,hne⟩ := h.asked m r hr
        exact ⟨by simpa [Asked,hc] using ha,hne⟩
      · exact h.replied
    · exact ⟨tr,os,account_frame h (by simp [hij]) (by simp) (fun _ _ hm => hm) (fun _ _ hm => hm)⟩
  | @send j r k n hc =>
    by_cases hij : i = j
    · subst hij
      have hn : n = tr.length := by simpa [hc] using h.calls
      have hkeep : ∀ m r', Asked (s.client i) tr m r' → Asked ⟨.call r k,n + 1,true⟩ tr m r' := by
        intro m r' ha
        rcases ha with hl | ⟨hw,_⟩
        · exact .inl hl
        · simp [hc] at hw
      refine ⟨tr,os,?_⟩
      rw [List.append_nil]
      constructor
      · simpa [hc] using h.consumes
      · simp [hn]
      · intro _
        exact ⟨r,k,by simp⟩
      · exact h.answers
      · intro e he hi
        simpa using hkeep _ _ (h.served e he hi)
      · intro m r' hm
        rcases Set.mem_insert_iff.mp hm with heq | hm
        · cases heq
          refine ⟨.inr ⟨by simp,hn,k,by simp⟩,?_⟩
          intro e he hi
          have hlt := (h.served e he hi).lt
          simp only [hc, Bool.toNat_false] at hlt
          omega
        · obtain ⟨ha,hne⟩ := h.asked m r' hm
          exact ⟨by simpa using hkeep _ _ ha,hne⟩
      · exact h.replied
    · refine ⟨tr,os,account_frame h (by simp [hij]) (by simp) ?_ (fun _ _ hm => hm)⟩
      intro m r' hm
      rcases Set.mem_insert_iff.mp hm with heq | hm
      · cases heq
        exact absurd rfl hij
      · exact hm
  | @serve j n r x u hr hv =>
    by_cases hij : i = j
    · subst hij
      exact ⟨tr,os,account_serve h hr⟩
    · refine ⟨tr,os,account_frame h rfl ?_ (fun _ _ hm => hm.1) ?_⟩
      · intro e he
        rw [List.mem_singleton] at he
        subst he
        exact fun hji => hij hji.symm
      · intro m y hm
        rcases Set.mem_insert_iff.mp hm with heq | hm
        · cases heq
          exact absurd rfl hij
        · exact hm
  | @deliver j r k n x hc hx =>
    by_cases hij : i = j
    · subst hij
      have hn : n = tr.length := by simpa [hc] using h.calls
      obtain ⟨e,he,hi,hm,heq⟩ := h.replied n ⟨r,x⟩ hx
      have ht := account_take h hc (.inr ⟨e,he,hi,hm.trans hn,heq⟩)
      exact ⟨_,_,by rw [List.append_nil]; exact ht⟩
    · exact ⟨tr,os,account_frame h (by simp [hij]) (by simp) (fun _ _ hm => hm) (fun _ _ hm => hm)⟩
  | @lose j r k n x hc hx =>
    by_cases hij : i = j
    · subst hij
      exact ⟨_,_,by rw [List.append_nil]; exact account_take h hc (.inl hx)⟩
    · exact ⟨tr,os,account_frame h (by simp [hij]) (by simp) (fun _ _ hm => hm) (fun _ _ hm => hm)⟩

/-- In any run every client has an account. -/
theorem Run.account {V : Service σ Req Resp} {s : σ} {p : ι → Prog Req Resp Out ε α}
    {es : List (Event ι σ Req Resp)} {t : System ι σ Req Resp Out ε α}
    (h : Run V (start s p) es t) (i : ι) : ∃ tr os, Account V (p i) es t i tr os := by
  induction h with
  | refl => exact ⟨[],[],account_start V s p i⟩
  | step _ ht ih =>
    obtain ⟨tr,os,ha⟩ := ih
    exact ht.account ha

/-- Each event answers a call that its client reached on replies that are failures
or come from earlier calls' events. -/
theorem Run.reached {V : Service σ Req Resp} {s : σ} {p : ι → Prog Req Resp Out ε α}
    {es : List (Event ι σ Req Resp)} {t : System ι σ Req Resp Out ε α}
    (h : Run V (start s p) es t) : ∀ e ∈ es, ∃ tr os k,
      Consumes (p e.caller) tr os (.call e.req k) ∧ tr.length = e.index ∧
        ∀ x ∈ tr, V.lost x.1 x.2 ∨ ∃ d ∈ es, d.caller = e.caller ∧ d.answer = x := by
  intro e he
  obtain ⟨tr,os,ha⟩ := h.account e.caller
  have hans : ∀ x ∈ tr, V.lost x.1 x.2 ∨ ∃ d ∈ es, d.caller = e.caller ∧ d.answer = x := by
    intro x hx
    obtain ⟨n,hn,rfl⟩ := List.mem_iff_getElem.mp hx
    rcases ha.answers n tr[n] (List.getElem?_eq_getElem hn) with hl | ⟨d,hd,hc,_,heq⟩
    · exact .inl hl
    · exact .inr ⟨d,hd,hc,heq⟩
  rcases ha.served e he rfl with ⟨x,hx,hq⟩ | ⟨_,hn,k,hk⟩
  · obtain ⟨os',k,hc⟩ := ha.consumes.take hx
    have hlt := (List.getElem?_eq_some_iff.mp hx).1
    have hreq : ∃ k, Consumes (p e.caller) (tr.take e.index) os' (.call e.req k) := by
      rw [← hq]
      exact ⟨k,hc⟩
    obtain ⟨k',hc'⟩ := hreq
    refine ⟨_,os',k',hc',by rw [List.length_take]; omega,fun y hy => ?_⟩
    exact hans y (List.mem_of_mem_take hy)
  · have hc := ha.consumes
    rw [hk] at hc
    exact ⟨tr,os,k,hc,hn.symm,hans⟩

theorem Run.asked {V : Service σ Req Resp} {s : σ} {p : ι → Prog Req Resp Out ε α}
    {es : List (Event ι σ Req Resp)} {t : System ι σ Req Resp Out ε α} {i : ι} {P : Req → Prop}
    (h : Run V (start s p) es t) (hp : (p i).Asks P) : ∀ e ∈ es, e.caller = i → P e.req := by
  intro e he hi
  obtain ⟨tr,os,k,hc,_⟩ := h.reached e he
  rw [hi] at hc
  exact (hc.asks_rest hp).1

theorem Run.serves {V : Service σ Req Resp} {s t : System ι σ Req Resp Out ε α}
    {es : List (Event ι σ Req Resp)} (h : Run V s es t) :
    ∀ e ∈ es, V.serve e.before e.req e.reply e.after := by
  induction h with
  | refl => simp
  | step _ ht ih =>
    intro e he
    rcases List.mem_append.mp he with he | he
    · exact ih e he
    · cases ht <;> simp at he
      subst he
      assumption

/-- What the service gathers is what the events before contributed, in order. -/
theorem Run.gathered {β : Type} {V : Service σ Req Resp} {s : System ι σ Req Resp Out ε α}
    {es : List (Event ι σ Req Resp)} {t : System ι σ Req Resp Out ε α} (h : Run V s es t)
    (view : σ → List β) (item : Event ι σ Req Resp → List β)
    (hitem : ∀ e : Event ι σ Req Resp, V.serve e.before e.req e.reply e.after →
      view e.after = view e.before ++ item e) :
    view t.service = view s.service ++ es.flatMap item ∧
      ∀ pre e post, es = pre ++ e :: post → view e.before = view s.service ++ pre.flatMap item := by
  induction h with
  | refl => exact ⟨by simp,fun pre e post h => by simp at h⟩
  | @step es ev t u h ht ih =>
    obtain ⟨hview,hsplit⟩ := ih
    cases ht with
    | emit | send | deliver | lose => simpa using ⟨hview,hsplit⟩
    | @serve i n r x u hr hs =>
      constructor
      · have hlast := hitem ⟨i,n,r,x,t.service,u⟩ hs
        simp only [List.flatMap_append, List.flatMap_singleton]
        rw [hlast, hview, List.append_assoc]
      · intro pre e post heq
        rcases List.eq_nil_or_concat post with rfl | ⟨post',x,rfl⟩
        · obtain ⟨rfl,he⟩ := List.append_inj' heq rfl
          cases he
          exact hview
        · have hsnoc := heq
          rw [List.concat_eq_append, ← List.cons_append, ← List.append_assoc] at hsnoc
          exact hsplit pre e post' (List.append_inj' hsnoc rfl).1

theorem Run.invariant {V : Service σ Req Resp} {s : System ι σ Req Resp Out ε α}
    {es : List (Event ι σ Req Resp)} {t : System ι σ Req Resp Out ε α} {I : σ → Prop}
    (h : Run V s es t) (hs : I s.service)
    (hkeep : ∀ e ∈ es, V.serve e.before e.req e.reply e.after → I e.before → I e.after) :
    I t.service ∧ ∀ e ∈ es, I e.before ∧ I e.after := by
  induction h with
  | refl => exact ⟨hs,by simp⟩
  | @step es ev t u h ht ih =>
    obtain ⟨ht',hes⟩ := ih fun e he => hkeep e (List.mem_append_left _ he)
    cases ht with
    | emit | send | deliver | lose => simpa using ⟨ht',hes⟩
    | @serve i n r x u hr hv =>
      have hlast := hkeep ⟨i,n,r,x,t.service,u⟩ (List.mem_append_right _ (List.mem_singleton.mpr rfl))
        hv ht'
      refine ⟨hlast,fun e he => ?_⟩
      rcases List.mem_append.mp he with he | he
      · exact hes e he
      · rw [List.mem_singleton] at he
        subst he
        exact ⟨ht',hlast⟩

theorem Run.once {V : Service σ Req Resp} {s : σ} {p : ι → Prog Req Resp Out ε α}
    {es : List (Event ι σ Req Resp)} {t : System ι σ Req Resp Out ε α}
    (h : Run V (start s p) es t) :
    es.Pairwise (fun d e => d.caller = e.caller → d.index ≠ e.index) := by
  induction h with
  | refl => exact .nil
  | @step es ev t u h ht ih =>
    cases ht with
    | serve i hr hs =>
      refine List.pairwise_append.mpr ⟨ih,List.pairwise_singleton _ _,?_⟩
      intro d hd e he hc
      rw [List.mem_singleton] at he
      subst he
      obtain ⟨tr,os,ha⟩ := h.account i
      exact (ha.asked _ _ hr).2 d hd hc
    | emit | send | deliver | lose => simpa using ih

theorem Run.event_unique {V : Service σ Req Resp} {s : σ} {p : ι → Prog Req Resp Out ε α}
    {es : List (Event ι σ Req Resp)} {t : System ι σ Req Resp Out ε α}
    (h : Run V (start s p) es t) {d e : Event ι σ Req Resp} (hd : d ∈ es) (he : e ∈ es)
    (hc : d.caller = e.caller) (hi : d.index = e.index) : d = e := by
  by_contra hne
  have hsymm : Std.Symm (fun d e : Event ι σ Req Resp => d.caller = e.caller → d.index ≠ e.index) :=
    ⟨fun _ _ hr hc hi => hr hc.symm hi.symm⟩
  exact h.once.forall hd he hne hc hi

/-- The history of a client that has returned: each reply it consumed, unless a
failure, is the answer of one event, and each event it caused belongs to one of
its calls. -/
structure History (V : Service σ Req Resp) (es : List (Event ι σ Req Resp)) (i : ι)
    (tr : List ((r : Req) × Resp r)) : Prop where
  serves : ∀ e ∈ es, V.serve e.before e.req e.reply e.after
  answers : ∀ n x, tr[n]? = some x → ¬ V.lost x.1 x.2 →
    ∃ e ∈ es, e.caller = i ∧ e.index = n ∧ e.answer = x
  events : ∀ e ∈ es, e.caller = i → ∃ x, tr[e.index]? = some x ∧ x.1 = e.req ∧
    (¬ V.lost x.1 x.2 → e.answer = x)
  unique : ∀ d ∈ es, ∀ e ∈ es, d.caller = i → e.caller = i → d.index = e.index → d = e

/-- A returned client returned what its program returns on a transcript that the
events of the run account for. -/
theorem Run.history {V : Service σ Req Resp} {s : σ} {p : ι → Prog Req Resp Out ε α}
    {es : List (Event ι σ Req Resp)} {t : System ι σ Req Resp Out ε α} {i : ι} {r : Except ε α}
    (h : Run V (start s p) es t) (hr : (t.client i).prog = .ofResult r) :
    ∃ tr os, Returns (p i) tr os r ∧ History V es i tr ∧ (t.client i).calls = tr.length := by
  obtain ⟨tr,os,ha⟩ := h.account i
  have hidle : (t.client i).waiting = false := by
    cases hw : (t.client i).waiting with
    | false => rfl
    | true =>
      obtain ⟨q,k,hk⟩ := ha.pending hw
      rw [hr] at hk
      cases r <;> cases hk
  have hans : ∀ n x, tr[n]? = some x → ¬ V.lost x.1 x.2 →
      ∃ e ∈ es, e.caller = i ∧ e.index = n ∧ e.answer = x := by
    intro n x hx hl
    exact (ha.answers n x hx).resolve_left hl
  have hret := ha.consumes
  rw [hr] at hret
  refine ⟨tr,os,hret,⟨h.serves,hans,?_,?_⟩,by simpa [hidle] using ha.calls⟩
  · intro e he hi
    rcases ha.served e he hi with ⟨x,hx,hq⟩ | ⟨hw,_⟩
    · refine ⟨x,hx,hq,fun hl => ?_⟩
      obtain ⟨d,hd,hdi,hdn,hdx⟩ := hans _ x hx hl
      rw [← hdx,h.event_unique hd he (hdi.trans hi.symm) hdn]
    · rw [hidle] at hw
      cases hw
  · intro d hd e he hdi hei hn
    exact h.event_unique hd he (hdi.trans hei.symm) hn

omit [DecidableEq ι] in
theorem History.answer_mem {V : Service σ Req Resp} {es : List (Event ι σ Req Resp)} {i : ι}
    {tr : List ((r : Req) × Resp r)} (h : History V es i tr) {x : (r : Req) × Resp r} (hx : x ∈ tr)
    (hl : ¬ V.lost x.1 x.2) : ∃ e ∈ es, e.caller = i ∧ e.answer = x := by
  obtain ⟨n,hn⟩ := List.mem_iff_getElem?.mp hx
  obtain ⟨e,he,hi,_,ha⟩ := h.answers n x hn hl
  exact ⟨e,he,hi,ha⟩

/-- The request changes nothing, or it was answered in a way that changes nothing. -/
def Quiet (V : Service σ Req Resp) (x : (r : Req) × Resp r) : Prop :=
  (∀ s y t, V.serve s x.1 y t → t = s) ∨
    (¬ V.lost x.1 x.2 ∧ ∀ s t, V.serve s x.1 x.2 t → t = s)

section Quiet
variable {V : Service σ Req Resp} {es : List (Event ι σ Req Resp)} {i : ι}
  {tr : List ((r : Req) × Resp r)}

omit [DecidableEq ι] in
theorem History.quiet_event (h : History V es i tr) {e : Event ι σ Req Resp} (he : e ∈ es)
    {x : (r : Req) × Resp r} (hq : x.1 = e.req) (ha : ¬ V.lost x.1 x.2 → e.answer = x)
    (hx : Quiet V x) : e.after = e.before := by
  have hs := h.serves e he
  rcases hx with hx | ⟨hl,hx⟩
  · obtain ⟨r,y⟩ := x
    subst hq
    exact hx _ _ _ hs
  · have heq := ha hl
    subst heq
    exact hx _ _ hs

omit [DecidableEq ι] in
/-- A client all of whose calls were quiet left the service as it was. -/
theorem History.untouched (h : History V es i tr) (ht : ∀ x ∈ tr, Quiet V x) :
    ∀ e ∈ es, e.caller = i → e.after = e.before := by
  intro e he hi
  obtain ⟨x,hx,hq,ha⟩ := h.events e he hi
  exact h.quiet_event he hq ha (ht x (List.mem_of_getElem? hx))

omit [DecidableEq ι] in
/-- A client whose calls before an answered last one were quiet changed the
service by the event of that last call only. -/
theorem History.last (h : History V es i tr) (pre : List ((r : Req) × Resp r))
    {x : (r : Req) × Resp r} (ht : tr = pre ++ [x]) (hpre : ∀ y ∈ pre, Quiet V y)
    (hx : ¬ V.lost x.1 x.2) :
    ∃ e ∈ es, e.caller = i ∧ e.answer = x ∧
      ∀ d ∈ es, d.caller = i → d ≠ e → d.after = d.before := by
  subst ht
  obtain ⟨e,he,hi,hn,ha⟩ := h.answers pre.length x (by simp) hx
  refine ⟨e,he,hi,ha,?_⟩
  intro d hd hdi hne
  obtain ⟨y,hy,hq,hans⟩ := h.events d hd hdi
  have hlt : d.index < pre.length := by
    have hl := (List.getElem?_eq_some_iff.mp hy).1
    have hd' : d.index ≠ pre.length := fun hdn => hne (h.unique d hd e he hdi hi (hdn.trans hn.symm))
    simp only [List.length_append, List.length_cons, List.length_nil] at hl
    omega
  rw [List.getElem?_append_left hlt] at hy
  exact h.quiet_event hd hq hans (hpre y (List.mem_of_getElem? hy))

end Quiet

/-- One client running alone from the service state `s` and its `n`-th call. -/
inductive Alone (V : Service σ Req Resp) (i : ι) : σ → ℕ → Prog Req Resp Out ε α →
    List (Event ι σ Req Resp) → σ → ℕ → Prog Req Resp Out ε α → Prop
  | refl (s : σ) (n : ℕ) (p : Prog Req Resp Out ε α) : Alone V i s n p [] s n p
  | emit {s t : σ} {n m : ℕ} {o : Out} {p q : Prog Req Resp Out ε α}
      {es : List (Event ι σ Req Resp)} (h : Alone V i s n p es t m q) :
      Alone V i s n (.emit o p) es t m q
  | call {s u t : σ} {n m : ℕ} {r : Req} {x : Resp r} {k : Resp r → Prog Req Resp Out ε α}
      {q : Prog Req Resp Out ε α} {es : List (Event ι σ Req Resp)} (hs : V.serve s r x u)
      (h : Alone V i u (n + 1) (k x) es t m q) :
      Alone V i s n (.call r k) (⟨i,n,r,x,s,u⟩ :: es) t m q

omit [DecidableEq ι] in
/-- Replies that leave the service as it is can be had alone. -/
theorem Alone.of_returns {V : Service σ Req Resp} {i : ι} {s : σ} {p : Prog Req Resp Out ε α}
    {tr : List ((r : Req) × Resp r)} {os : List Out} {r : Except ε α} (h : Returns p tr os r)
    (hserve : ∀ x ∈ tr, V.serve s x.1 x.2 s) (n : ℕ) :
    ∃ es, Alone V i s n p es s (n + tr.length) (.ofResult r) := by
  induction p generalizing tr os n with
  | ok a =>
    obtain ⟨rfl,_,rfl⟩ := h.of_ok
    exact ⟨[],.refl s n _⟩
  | err e =>
    obtain ⟨rfl,_,rfl⟩ := h.of_err
    exact ⟨[],.refl s n _⟩
  | emit o p ih =>
    obtain ⟨_,_,h₁⟩ := h.of_emit
    obtain ⟨es,halone⟩ := ih h₁ hserve n
    exact ⟨es,.emit halone⟩
  | call q k ih =>
    obtain ⟨x,tr',rfl,h₁⟩ := h.of_call
    obtain ⟨hx,hrest⟩ := List.forall_mem_cons.mp hserve
    obtain ⟨es,halone⟩ := ih x h₁ hrest (n + 1)
    rw [Nat.add_assoc, Nat.add_comm 1] at halone
    exact ⟨_,.call hx halone⟩

theorem Run.trans {V : Service σ Req Resp} {s t u : System ι σ Req Resp Out ε α}
    {es es' : List (Event ι σ Req Resp)} (h : Run V s es t) (h' : Run V t es' u) :
    Run V s (es ++ es') u := by
  induction h' with
  | refl => simpa using h
  | step _ hu ih =>
    rw [← List.append_assoc]
    exact ih.step hu

/-- Running alone is one way to run. -/
theorem Alone.run {V : Service σ Req Resp} {i : ι} {s t : σ} {n m : ℕ}
    {p q : Prog Req Resp Out ε α} {es : List (Event ι σ Req Resp)} (h : Alone V i s n p es t m q) :
    ∀ S : System ι σ Req Resp Out ε α, S.service = s → S.client i = ⟨p,n,false⟩ →
      ∃ T, Run V S es T ∧ T.service = t ∧ T.client i = ⟨q,m,false⟩ ∧
        ∀ j, j ≠ i → T.client j = S.client j := by
  induction h with
  | refl s n p =>
    intro S hs hc
    exact ⟨S,.refl,hs,hc,fun _ _ => rfl⟩
  | @emit s t n m o p q es _ ih =>
    intro S hs hc
    have hemit : Step V S [] _ := .emit S i hc
    obtain ⟨T,hT,ht,hq,hframe⟩ :=
      ih { S with client := Function.update S.client i ⟨p,n,false⟩ } hs (by simp)
    refine ⟨T,(Run.refl.step hemit).trans hT,ht,hq,fun j hj => ?_⟩
    rw [hframe j hj]
    exact Function.update_of_ne hj _ _
  | @call s u t n m r x k q es hv _ ih =>
    intro S hs hc
    subst hs
    have hsend : Step V S [] _ := .send S i hc
    have hserve : Step V _ [⟨i,n,r,x,S.service,u⟩] _ :=
      .serve { S with
        client := Function.update S.client i ⟨.call r k,n + 1,true⟩
        requests := insert (i,n,r) S.requests } i (Set.mem_insert _ _) hv
    have hdeliver : Step V _ [] _ := .deliver { S with
        service := u
        client := Function.update S.client i ⟨.call r k,n + 1,true⟩
        requests := insert (i,n,r) S.requests \ {(i,n,r)}
        replies := insert (i,n,⟨r,x⟩) S.replies } i (Function.update_self i _ _) (Set.mem_insert _ _)
    obtain ⟨T,hT,ht,hq,hframe⟩ := ih { S with
        service := u
        client := Function.update (Function.update S.client i ⟨.call r k,n + 1,true⟩) i
          ⟨k x,n + 1,false⟩
        requests := insert (i,n,r) S.requests \ {(i,n,r)}
        replies := insert (i,n,⟨r,x⟩) S.replies } rfl (by simp)
    have hrun := ((Run.refl.step hsend).step hserve).step hdeliver
    refine ⟨T,by simpa using hrun.trans hT,ht,hq,fun j hj => ?_⟩
    rw [hframe j hj]
    simp [Function.update_of_ne hj]

end SlatedbCloudflare.Messages
