import SlatedbCloudflare.Library.Programs

/-! # Pages linked by cursors

A paged result is read page by page, each request with the cursor of the page
before. `pull` is the closure of a stream that unfolds such pages into items, and
`gather` the loop that reads all pages. `none` tells that the fuel ran out.
-/
namespace SlatedbCloudflare.Paging
open Programs

/-- The pages from a cursor on, to the first one without a next cursor. -/
inductive Walk {κ β : Type} (step : Option κ → β × Option κ → Prop) : Option κ → List β → Prop
  | last {c : Option κ} {b : β} (h : step c (b,none)) : Walk step c [b]
  | more {c : Option κ} {b : β} {next : κ} {bs : List β} (h : step c (b,some next))
      (rest : Walk step (some next) bs) : Walk step c (b :: bs)

theorem Walk.map {κ β γ : Type} {step : Option κ → β × Option κ → Prop}
    {step' : Option κ → γ × Option κ → Prop} {f : β → γ} {c : Option κ} {bs : List β}
    (h : Walk step c bs)
    (hstep : ∀ c b next, b ∈ bs → step c (b,next) → step' c (f b,next)) :
    Walk step' c (bs.map f) := by
  induction h with
  | last h => exact .last (hstep _ _ _ List.mem_cons_self h)
  | more h _ ih =>
    refine .more (hstep _ _ _ List.mem_cons_self h) (ih fun c b next hb => ?_)
    exact hstep c b next (List.mem_cons_of_mem _ hb)

/-- The state of the stream: where the next page begins, the items of the last page
not yet yielded, and whether it was the last one. -/
structure Unfold (κ β : Type) where
  cursor : Option κ
  buffered : List β
  finished : Bool

inductive Pulled (κ β : Type)
  | item (b : β) (next : Unfold κ β)
  | ended
  | unfinished

section Streams
variable {Req : Type} {Resp : Req → Type} {Out ε κ β γ : Type}
  (page : Option κ → Prog Req Resp Out ε (List β × Option κ))

/-- The loop that reads pages up to the first one with an item. -/
def nextPage : ℕ → Option κ → Prog Req Resp Out ε (Pulled κ β)
  | 0, _ => pure .unfinished
  | n + 1, cursor => do
    let (items,next) ← page cursor
    match items with
    | item :: rest => pure (.item item ⟨next,rest,next.isNone⟩)
    | [] => match next with
      | some next => nextPage n (some next)
      | none => pure .ended

def pull (n : ℕ) (s : Unfold κ β) : Prog Req Resp Out ε (Pulled κ β) :=
  match s.buffered with
  | item :: rest => pure (.item item { s with buffered := rest })
  | [] => if s.finished then pure .ended else nextPage page n s.cursor

def drain : ℕ → Unfold κ β → Prog Req Resp Out ε (Option (List β))
  | 0, _ => pure none
  | n + 1, s => do
    match ← pull page n s with
    | .item item next => do
      let rest ← drain n next
      pure (rest.map (fun items => item :: items))
    | .ended => pure (some [])
    | .unfinished => pure none

/-- The loop that reads all pages into `all`. -/
def gather (page : Option κ → Prog Req Resp Out ε (β × Option κ)) (extend : γ → β → γ) :
    ℕ → Option κ → γ → Prog Req Resp Out ε (Option γ)
  | 0, _, _ => pure none
  | n + 1, cursor, all => do
    let (result,next) ← page cursor
    match next with
    | some next => gather page extend n (some next) (extend all result)
    | none => pure (some (extend all result))

end Streams

section Rules
variable {Req : Type} {Resp : Req → Type} {Out ε κ β γ : Type} {P : Req → Prop}

theorem nextPage_asks {page : Option κ → Prog Req Resp Out ε (List β × Option κ)}
    (h : ∀ c, (page c).Asks P) (n : ℕ) (c : Option κ) : (nextPage page n c).Asks P := by
  induction n generalizing c with
  | zero => trivial
  | succ n ih =>
    refine (h c).bind ?_
    rintro ⟨_ | ⟨item,items⟩,_ | next⟩
    · trivial
    · exact ih _
    · trivial
    · trivial

theorem pull_asks {page : Option κ → Prog Req Resp Out ε (List β × Option κ)} (h : ∀ c, (page c).Asks P)
    (n : ℕ) (s : Unfold κ β) : (pull page n s).Asks P := by
  unfold pull
  split
  · trivial
  · split
    · trivial
    · exact nextPage_asks h n s.cursor

theorem drain_asks {page : Option κ → Prog Req Resp Out ε (List β × Option κ)} (h : ∀ c, (page c).Asks P)
    (n : ℕ) (s : Unfold κ β) : (drain page n s).Asks P := by
  induction n generalizing s with
  | zero => trivial
  | succ n ih =>
    refine (pull_asks h n s).bind ?_
    rintro (⟨item,next⟩ | _ | _)
    · exact (ih next).bind fun _ => trivial
    · trivial
    · trivial

theorem gather_asks {page : Option κ → Prog Req Resp Out ε (β × Option κ)} {extend : γ → β → γ}
    (h : ∀ c, (page c).Asks P) (n : ℕ) (c : Option κ) (all : γ) : (gather page extend n c all).Asks P := by
  induction n generalizing c all with
  | zero => trivial
  | succ n ih =>
    refine (h c).bind ?_
    rintro ⟨result,_ | next⟩
    · trivial
    · exact ih _ _

variable {Q : (r : Req) × Resp r → Prop}

/-- The items of every page have the property, where the replies have theirs. -/
def PageItems (page : Option κ → Prog Req Resp Out ε (List β × Option κ))
    (Q : (r : Req) × Resp r → Prop) (I : β → Prop) : Prop :=
  ∀ c tr os items next, Returns (page c) tr os (.ok (items,next)) → (∀ x ∈ tr, Q x) → ∀ b ∈ items, I b

theorem PageItems.nextPage {page : Option κ → Prog Req Resp Out ε (List β × Option κ)} {I : β → Prop}
    (h : PageItems page Q I) {n : ℕ} {c : Option κ} {tr : List ((r : Req) × Resp r)} {os : List Out}
    {item : β} {next : Unfold κ β} (hr : Returns (nextPage page n c) tr os (.ok (.item item next)))
    (hQ : ∀ x ∈ tr, Q x) : I item ∧ ∀ b ∈ next.buffered, I b := by
  induction n generalizing c tr os with
  | zero => cases hr.of_ok.2.2
  | succ n ih =>
    obtain ⟨⟨items,more⟩,tr₁,tr₂,os₁,os₂,rfl,rfl,h₁,h₂⟩ := hr.of_bind_ok
    obtain ⟨hQ₁,hQ₂⟩ := List.forall_mem_append.mp hQ
    cases items with
    | nil =>
      cases more with
      | none => cases h₂.of_ok.2.2
      | some more => exact ih h₂ hQ₂
    | cons b items =>
      have hitems := List.forall_mem_cons.mp (h c tr₁ os₁ _ _ h₁ hQ₁)
      obtain ⟨_,_,heq⟩ := h₂.of_ok
      cases heq
      exact hitems

theorem PageItems.pull {page : Option κ → Prog Req Resp Out ε (List β × Option κ)} {I : β → Prop}
    (h : PageItems page Q I) {n : ℕ} {s : Unfold κ β} {tr : List ((r : Req) × Resp r)} {os : List Out}
    {item : β} {next : Unfold κ β} (hr : Returns (pull page n s) tr os (.ok (.item item next)))
    (hQ : ∀ x ∈ tr, Q x) (hs : ∀ b ∈ s.buffered, I b) : I item ∧ ∀ b ∈ next.buffered, I b := by
  obtain ⟨cursor,buffered,finished⟩ := s
  cases buffered with
  | nil =>
    cases finished with
    | false => exact h.nextPage hr hQ
    | true => cases hr.of_ok.2.2
  | cons b buffered =>
    obtain ⟨_,_,heq⟩ := hr.of_ok
    cases heq
    exact List.forall_mem_cons.mp hs

theorem PageItems.drain {page : Option κ → Prog Req Resp Out ε (List β × Option κ)} {I : β → Prop}
    (h : PageItems page Q I) {n : ℕ} {s : Unfold κ β} {tr : List ((r : Req) × Resp r)} {os : List Out}
    {items : List β} (hr : Returns (drain page n s) tr os (.ok (some items))) (hQ : ∀ x ∈ tr, Q x)
    (hs : ∀ b ∈ s.buffered, I b) : ∀ b ∈ items, I b := by
  induction n generalizing s tr os items with
  | zero => cases hr.of_ok.2.2
  | succ n ih =>
    obtain ⟨pulled,tr₁,tr₂,os₁,os₂,rfl,rfl,h₁,h₂⟩ := hr.of_bind_ok
    obtain ⟨hQ₁,hQ₂⟩ := List.forall_mem_append.mp hQ
    cases pulled with
    | ended =>
      obtain ⟨_,_,heq⟩ := h₂.of_ok
      cases heq
      exact fun b hb => absurd hb List.not_mem_nil
    | unfinished => cases h₂.of_ok.2.2
    | item item next =>
      obtain ⟨hitem,hnext⟩ := h.pull h₁ hQ₁ hs
      obtain ⟨rest,tr₃,tr₄,os₃,os₄,rfl,rfl,h₃,h₄⟩ := h₂.of_bind_ok
      obtain ⟨_,_,heq⟩ := h₄.of_ok
      cases rest with
      | none => cases heq
      | some rest =>
        cases heq
        have hrest := ih h₃ (List.forall_mem_append.mp hQ₂).1 hnext
        exact List.forall_mem_cons.mpr ⟨hitem,hrest⟩

theorem gather_keeps {page : Option κ → Prog Req Resp Out ε (β × Option κ)} {extend : γ → β → γ}
    {I : γ → Prop} (h : ∀ c tr os result next all, Returns (page c) tr os (.ok (result,next)) →
      (∀ x ∈ tr, Q x) → I all → I (extend all result)) {n : ℕ} {c : Option κ} {all result : γ}
    {tr : List ((r : Req) × Resp r)} {os : List Out}
    (hr : Returns (gather page extend n c all) tr os (.ok (some result))) (hQ : ∀ x ∈ tr, Q x)
    (hall : I all) : I result := by
  induction n generalizing c all tr os with
  | zero => cases hr.of_ok.2.2
  | succ n ih =>
    obtain ⟨⟨first,more⟩,tr₁,tr₂,os₁,os₂,rfl,rfl,h₁,h₂⟩ := hr.of_bind_ok
    obtain ⟨hQ₁,hQ₂⟩ := List.forall_mem_append.mp hQ
    have hnext := h c tr₁ os₁ first more all h₁ hQ₁ hall
    cases more with
    | none =>
      obtain ⟨_,_,heq⟩ := h₂.of_ok
      cases heq
      exact hnext
    | some more => exact ih h₂ hQ₂ hnext

theorem drain_single {page : Option κ → Prog Req Resp Out ε (List β × Option κ)} {c : Option κ}
    {tr : List ((r : Req) × Resp r)} {os : List Out} {item : β}
    (h : Returns (page c) tr os (.ok ([item],none))) (n : ℕ) :
    Returns (drain page (n + 2) ⟨c,[],false⟩) tr os (.ok (some [item])) := by
  have hnext : Returns (nextPage page (n + 1) c) tr os (.ok (.item item ⟨none,[],true⟩)) := h.bind_result rfl
  exact Returns.bind_result hnext rfl

end Rules

section Walks
variable {Req : Type} {Resp : Req → Type} {Out ε κ β γ : Type} {answer : (r : Req) → Resp r}

/-- The request for the page at this cursor succeeds with this page. -/
def Answers (answer : (r : Req) → Resp r) (page : Option κ → Prog Req Resp Out ε (β × Option κ))
    (c : Option κ) (x : β × Option κ) : Prop := (page c).eval answer = .ok x

theorem gather_eval {page : Option κ → Prog Req Resp Out ε (β × Option κ)} {extend : γ → β → γ}
    {c : Option κ} {bs : List β} (h : Walk (Answers answer page) c bs) {n : ℕ} (hn : bs.length ≤ n)
    (all : γ) : (gather page extend n c all).eval answer = .ok (some (bs.foldl extend all)) := by
  induction h generalizing n all with
  | last h =>
    obtain ⟨m,rfl⟩ : ∃ m, n = m + 1 := ⟨n - 1,by simp at hn; omega⟩
    rw [gather, Prog.eval_bind_ok h]
    rfl
  | more h _ ih =>
    obtain ⟨m,rfl⟩ : ∃ m, n = m + 1 := ⟨n - 1,by simp at hn; omega⟩
    rw [gather, Prog.eval_bind_ok h]
    exact ih (by simpa using hn) _

variable {page : Option κ → Prog Req Resp Out ε (List β × Option κ)}

/-- What `drain` does with the outcome of one pull. -/
def follow (page : Option κ → Prog Req Resp Out ε (List β × Option κ)) (n : ℕ) :
    Pulled κ β → Prog Req Resp Out ε (Option (List β))
  | .item item next => do
    let rest ← drain page n next
    pure (rest.map (fun items => item :: items))
  | .ended => pure (some [])
  | .unfinished => pure none

theorem drain_succ (n : ℕ) (s : Unfold κ β) : drain page (n + 1) s = pull page n s >>= follow page n := by
  rw [drain]
  rfl

theorem drain_buffered {c : Option κ} {finished : Bool} {items l : List β} {N : ℕ}
    (h : ∀ n, N ≤ n → (drain page n ⟨c,[],finished⟩).eval answer = .ok (some l)) :
    ∀ n, N + items.length ≤ n →
      (drain page n ⟨c,items,finished⟩).eval answer = .ok (some (items ++ l)) := by
  induction items with
  | nil => exact h
  | cons item items ih =>
    intro n hn
    rw [List.length_cons] at hn
    obtain ⟨m,rfl⟩ : ∃ m, n = m + 1 := ⟨n - 1,by omega⟩
    have hrest := ih m (by omega)
    change ((drain page m ⟨c,items,finished⟩) >>= _).eval answer = _
    rw [Prog.eval_bind_ok hrest]
    rfl

theorem drain_finished (c : Option κ) : ∀ n, 1 ≤ n →
    (drain page n ⟨c,[],true⟩).eval answer = .ok (some []) := by
  intro n hn
  obtain ⟨m,rfl⟩ : ∃ m, n = m + 1 := ⟨n - 1,by omega⟩
  rfl

theorem follow_item {item : β} {next : Unfold κ β} {l : List β} {n : ℕ}
    (h : (drain page n next).eval answer = .ok (some l)) :
    (follow page n (.item item next)).eval answer = .ok (some (item :: l)) := by
  rw [follow, Prog.eval_bind_ok h]
  rfl

theorem follow_eval {c : Option κ} {ls : List (List β)} (h : Walk (Answers answer page) c ls) :
    ∀ m n, ls.length ≤ m → ls.flatten.length + ls.length ≤ n →
      (nextPage page m c >>= follow page n).eval answer = .ok (some ls.flatten) := by
  induction h with
  | @last c items h =>
    intro m n hm hn
    simp only [List.length_singleton, List.flatten_singleton] at hm hn ⊢
    obtain ⟨k,rfl⟩ : ∃ k, m = k + 1 := ⟨m - 1,by omega⟩
    cases items with
    | nil =>
      have hnext : (nextPage page (k + 1) c).eval answer = .ok .ended := by
        rw [nextPage, Prog.eval_bind_ok h]
        rfl
      rw [Prog.eval_bind_ok hnext]
      rfl
    | cons item rest =>
      have hnext : (nextPage page (k + 1) c).eval answer = .ok (.item item ⟨none,rest,true⟩) := by
        rw [nextPage, Prog.eval_bind_ok h]
        rfl
      rw [List.length_cons] at hn
      have hrest : (drain page n ⟨none,rest,true⟩).eval answer = .ok (some (rest ++ [])) :=
        drain_buffered (drain_finished none) n (by omega)
      rw [List.append_nil] at hrest
      rw [Prog.eval_bind_ok hnext]
      exact follow_item hrest
  | @more c items next ls h _ ih =>
    intro m n hm hn
    rw [List.length_cons] at hm hn
    obtain ⟨k,rfl⟩ : ∃ k, m = k + 1 := ⟨m - 1,by omega⟩
    cases items with
    | nil =>
      have hnext : (nextPage page (k + 1) c).eval answer = (nextPage page k (some next)).eval answer := by
        rw [nextPage, Prog.eval_bind_ok h]
      rw [Prog.eval_bind, hnext, ← Prog.eval_bind]
      rw [List.flatten_cons, List.nil_append] at hn ⊢
      exact ih k n (by omega) (by omega)
    | cons item rest =>
      have hnext : (nextPage page (k + 1) c).eval answer = .ok (.item item ⟨some next,rest,false⟩) := by
        rw [nextPage, Prog.eval_bind_ok h]
        rfl
      have hlater : ∀ n, ls.flatten.length + ls.length + 1 ≤ n →
          (drain page n ⟨some next,[],false⟩).eval answer = .ok (some ls.flatten) := by
        intro n hn
        obtain ⟨j,rfl⟩ : ∃ j, n = j + 1 := ⟨n - 1,by omega⟩
        rw [drain_succ]
        exact ih j j (by omega) (by omega)
      simp only [List.flatten_cons, List.length_append, List.length_cons] at hn
      rw [Prog.eval_bind_ok hnext]
      exact follow_item (drain_buffered hlater n (by omega))

/-- A stream over finitely many pages yields their items in order and ends. -/
theorem drain_eval {c : Option κ} {ls : List (List β)} (h : Walk (Answers answer page) c ls)
    {n : ℕ} (hn : ls.flatten.length + ls.length < n) :
    (drain page n ⟨c,[],false⟩).eval answer = .ok (some ls.flatten) := by
  obtain ⟨m,rfl⟩ : ∃ m, n = m + 1 := ⟨n - 1,by omega⟩
  rw [drain_succ]
  exact follow_eval h m m (by omega) (by omega)

end Walks

end SlatedbCloudflare.Paging
