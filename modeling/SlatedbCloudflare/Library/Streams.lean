import SlatedbCloudflare.Library.Paging

/-! # Streams over pages, pull by pull

`poll` is one pull of a stream that unfolds pages with a fallible closure: after
an error, or after the end, the stream has no state left and stays ended.
-/
namespace SlatedbCloudflare.Paging
open Programs

inductive Polled (ε β : Type)
  | item (b : β)
  | failed (e : ε)
  | ended
  | unfinished
  deriving DecidableEq

section
variable {Req : Type} {Resp : Req → Type} {Out ε κ β : Type}
  (page : Option κ → Prog Req Resp Out ε (List β × Option κ))

/-- What a pull makes of the outcome of the closure. -/
def polled : Except ε (Pulled κ β) → Polled ε β × Option (Unfold κ β)
  | .ok (.item item next) => (.item item,some next)
  | .ok .ended => (.ended,none)
  | .ok .unfinished => (.unfinished,none)
  | .error e => (.failed e,none)

def poll (n : ℕ) : Option (Unfold κ β) → Prog Req Resp Out ε (Polled ε β × Option (Unfold κ β))
  | none => pure (.ended,none)
  | some s => do
    let outcome ← (pull page n s).attempt
    pure (polled outcome)

def polls (n : ℕ) : ℕ → Option (Unfold κ β) → Prog Req Resp Out ε (List (Polled ε β))
  | 0, _ => pure []
  | k + 1, s => do
    let (outcome,next) ← poll page n s
    let rest ← polls n k next
    pure (outcome :: rest)

end

/-- The pages served from a cursor on, up to the last one or to an error, with the
events of serving them. -/
inductive Served {κ ν ε A : Type} (serves : Option κ → List A → ν × Option κ → Prop)
    (fails : Option κ → List A → ε → Prop) : Option κ → List A → List ν → Option ε → Prop
  | last {c : Option κ} {tr : List A} {v : ν} (h : serves c tr (v,none)) :
      Served serves fails c tr [v] none
  | failed {c : Option κ} {tr : List A} {e : ε} (h : fails c tr e) : Served serves fails c tr [] (some e)
  | more {c : Option κ} {tr tr' : List A} {v : ν} {next : κ} {vs : List ν} {error : Option ε}
      (h : serves c tr (v,some next)) (rest : Served serves fails (some next) tr' vs error) :
      Served serves fails c (tr ++ tr') (v :: vs) error

theorem Served.map {κ ν ν' ε A : Type} {serves : Option κ → List A → ν × Option κ → Prop}
    {serves' : Option κ → List A → ν' × Option κ → Prop} {fails : Option κ → List A → ε → Prop}
    {f : ν → ν'} {c : Option κ} {tr : List A} {vs : List ν} {error : Option ε}
    (h : Served serves fails c tr vs error)
    (hserves : ∀ c tr v next, serves c tr (v,next) → serves' c tr (f v,next)) :
    Served serves' fails c tr (vs.map f) error := by
  induction h with
  | last h => exact .last (hserves _ _ _ _ h)
  | failed h => exact .failed h
  | more h _ ih => exact .more (hserves _ _ _ _ h) ih

section Runs
variable {Req : Type} {Resp : Req → Type} {Out ε κ β γ : Type}

def Answered (page : Option κ → Prog Req Resp Out ε γ) (c : Option κ)
    (tr : List ((r : Req) × Resp r)) (x : γ) : Prop := ∃ os, Returns (page c) tr os (.ok x)

def Failed (page : Option κ → Prog Req Resp Out ε γ) (c : Option κ)
    (tr : List ((r : Req) × Resp r)) (e : ε) : Prop := ∃ os, Returns (page c) tr os (.error e)

/-- The result of reading everything, unless that failed. -/
def overall (error : Option ε) (a : γ) : Except ε (Option γ) :=
  match error with
  | none => .ok (some a)
  | some e => .error e

/-- The loop over all pages returns their results together, or the error. -/
theorem gather_served {page : Option κ → Prog Req Resp Out ε (β × Option κ)} {extend : γ → β → γ}
    {c : Option κ} {tr : List ((r : Req) × Resp r)} {vs : List β} {error : Option ε}
    (h : Served (Answered page) (Failed page) c tr vs error) {n : ℕ} (hn : vs.length < n) (all : γ) :
    ∃ os, Returns (gather page extend n c all) tr os (overall error (vs.foldl extend all)) := by
  induction h generalizing n all with
  | last h =>
    obtain ⟨os,h⟩ := h
    obtain ⟨m,rfl⟩ : ∃ m, n = m + 1 := ⟨n - 1,by omega⟩
    exact ⟨os,h.bind_result rfl⟩
  | failed h =>
    obtain ⟨os,h⟩ := h
    obtain ⟨m,rfl⟩ : ∃ m, n = m + 1 := ⟨n - 1,by omega⟩
    exact ⟨os,h.bind_error⟩
  | @more c tr tr' v next vs error h _ ih =>
    obtain ⟨os,h⟩ := h
    rw [List.length_cons] at hn
    obtain ⟨m,rfl⟩ : ∃ m, n = m + 1 := ⟨n - 1,by omega⟩
    obtain ⟨os',hrest⟩ := ih (n := m) (by omega) (extend all v)
    exact ⟨os ++ os',h.bind hrest⟩

variable {page : Option κ → Prog Req Resp Out ε (List β × Option κ)}

/-- What lies ahead of a stream: the replies it will ask for, its items and its error. -/
inductive Ahead (page : Option κ → Prog Req Resp Out ε (List β × Option κ)) (n : ℕ) :
    Option (Unfold κ β) → List ((r : Req) × Resp r) → List β → Option ε → Prop
  | ended : Ahead page n none [] [] none
  | finished (c : Option κ) (items : List β) : Ahead page n (some ⟨c,items,true⟩) [] items none
  | pending {c : Option κ} {tr : List ((r : Req) × Resp r)} {vs : List (List β)} {error : Option ε}
      (items : List β) (h : Served (Answered page) (Failed page) c tr vs error) (hn : vs.length < n) :
      Ahead page n (some ⟨c,items,false⟩) tr (items ++ vs.flatten) error

def yielded (items : List β) (error : Option ε) : Polled ε β :=
  match items, error with
  | item :: _, _ => .item item
  | [], some e => .failed e
  | [], none => .ended

def errorAfter (items : List β) (error : Option ε) : Option ε := if items = [] then none else error

theorem nextPage_served {c : Option κ} {tr : List ((r : Req) × Resp r)} {vs : List (List β)}
    {error : Option ε} (h : Served (Answered page) (Failed page) c tr vs error) {N n : ℕ}
    (hn : vs.length < n) (hle : n ≤ N) : ∃ read rest os outcome, tr = read ++ rest ∧
      Returns (nextPage page n c) read os outcome ∧
      (polled outcome).1 = yielded vs.flatten error ∧
      Ahead page N (polled outcome).2 rest vs.flatten.tail (errorAfter vs.flatten error) ∧
      (vs.flatten = [] → rest = []) := by
  induction h generalizing n with
  | @last c tr v h =>
    obtain ⟨os,h⟩ := h
    obtain ⟨m,rfl⟩ : ∃ m, n = m + 1 := ⟨n - 1,by omega⟩
    rw [List.flatten_singleton]
    cases v with
    | nil => exact ⟨tr,[],os,.ok .ended,by simp,h.bind_result rfl,rfl,.ended,fun _ => rfl⟩
    | cons item items =>
      exact ⟨tr,[],os,.ok (.item item ⟨none,items,true⟩),by simp,h.bind_result rfl,rfl,
        .finished none items,fun _ => rfl⟩
  | @failed c tr e h =>
    obtain ⟨os,h⟩ := h
    obtain ⟨m,rfl⟩ : ∃ m, n = m + 1 := ⟨n - 1,by omega⟩
    exact ⟨tr,[],os,.error e,by simp,h.bind_error,rfl,.ended,fun _ => rfl⟩
  | @more c tr tr' v next vs error h hrest ih =>
    obtain ⟨os,h⟩ := h
    rw [List.length_cons] at hn
    obtain ⟨m,rfl⟩ : ∃ m, n = m + 1 := ⟨n - 1,by omega⟩
    rw [List.flatten_cons]
    cases v with
    | nil =>
      obtain ⟨read,rest,os',outcome,rfl,hreturns,hyielded,hahead,hempty⟩ := ih (n := m) (by omega) (by omega)
      exact ⟨tr ++ read,rest,os ++ os',outcome,by simp,h.bind hreturns,hyielded,hahead,hempty⟩
    | cons item items =>
      refine ⟨tr,tr',os,.ok (.item item ⟨some next,items,false⟩),rfl,h.bind_result rfl,rfl,?_,?_⟩
      · exact .pending items hrest (by omega)
      · intro hnil
        cases hnil

theorem poll_ahead {n : ℕ} {s : Option (Unfold κ β)} {tr : List ((r : Req) × Resp r)}
    {items : List β} {error : Option ε} (h : Ahead page n s tr items error) :
    ∃ read rest os next, tr = read ++ rest ∧
      Returns (poll page n s) read os (.ok (yielded items error,next)) ∧
      Ahead page n next rest items.tail (errorAfter items error) ∧ (items = [] → rest = []) := by
  cases h with
  | ended => exact ⟨[],[],[],none,rfl,.refl _,.ended,fun _ => rfl⟩
  | finished c items =>
    cases items with
    | nil => exact ⟨[],[],[],none,rfl,.refl _,.ended,fun _ => rfl⟩
    | cons item items =>
      exact ⟨[],[],[],some ⟨c,items,true⟩,rfl,.refl _,.finished c items,fun _ => rfl⟩
  | @pending c tr vs error items h hn =>
    cases items with
    | nil =>
      obtain ⟨read,rest,os,outcome,rfl,hreturns,hyielded,hahead,hempty⟩ := nextPage_served h hn (Nat.le_refl n)
      refine ⟨read,rest,os,(polled outcome).2,rfl,?_,hahead,hempty⟩
      rw [List.nil_append, ← hyielded]
      exact Returns.bind_result (Returns.attempt hreturns) rfl
    | cons item items =>
      refine ⟨[],tr,[],some ⟨c,items,false⟩,rfl,.refl _,?_,fun hnil => by cases hnil⟩
      exact .pending items h hn

def outcomes : ℕ → List β → Option ε → List (Polled ε β)
  | 0, _, _ => []
  | k + 1, items, error => yielded items error :: outcomes k items.tail (errorAfter items error)

/-- Pulls yield what is ahead, in order, and ask for nothing else. -/
theorem polls_ahead {n : ℕ} {s : Option (Unfold κ β)} {tr : List ((r : Req) × Resp r)}
    {items : List β} {error : Option ε} (h : Ahead page n s tr items error) (k : ℕ) :
    ∃ read rest os, tr = read ++ rest ∧ (items.length < k → rest = []) ∧
      Returns (polls page n k s) read os (.ok (outcomes k items error)) := by
  induction k generalizing s tr items error with
  | zero =>
    exact ⟨[],tr,[],rfl,fun hlt => absurd hlt (Nat.not_lt_zero _),.refl _⟩
  | succ k ih =>
    obtain ⟨read,rest,os,next,rfl,hreturns,hahead,hempty⟩ := poll_ahead h
    obtain ⟨read',rest',os',rfl,hall,hreturns'⟩ := ih hahead
    refine ⟨read ++ read',rest',os ++ os',by rw [List.append_assoc],?_,?_⟩
    · intro hlt
      cases items with
      | nil => exact (List.append_eq_nil_iff.mp (hempty rfl)).2
      | cons item items => exact hall (by simpa using hlt)
    · exact hreturns.bind (hreturns'.bind_result rfl)

/-- They are the items, the error if there is one, and then the end forever. -/
theorem outcomes_eq {N k : ℕ} (hk : k ≤ N) (items : List β) (error : Option ε) :
    outcomes k items error =
      (items.map Polled.item ++ (error.map Polled.failed).toList ++ List.replicate N Polled.ended).take k := by
  induction k generalizing N items error with
  | zero => rfl
  | succ k ih =>
    cases items with
    | nil =>
      cases error with
      | none =>
        obtain ⟨M,rfl⟩ : ∃ M, N = M + 1 := ⟨N - 1,by omega⟩
        have hrest := ih (N := M) (by omega) [] none
        simp only [outcomes, List.tail_nil, errorAfter, if_true, hrest]
        rfl
      | some e =>
        have hrest := ih (N := N) (by omega) [] none
        simp only [outcomes, List.tail_nil, errorAfter, if_true, hrest]
        rfl
    | cons item items =>
      have hrest := ih (N := N) (by omega) items error
      simp only [outcomes, List.tail_cons, errorAfter, reduceCtorEq, if_false, hrest]
      rfl

/-- Answered with the replies of `tr`, the program asks for the first of them, `read`,
and returns `r`; there is no other run along them. -/
def Along {α : Type} (p : Prog Req Resp Out ε α) (tr read : List ((r : Req) × Resp r))
    (r : Except ε α) : Prop :=
  read <+: tr ∧ (∃ os, Returns p read os r) ∧
    ∀ read' os' r', read' <+: tr → Returns p read' os' r' → read' = read ∧ r' = r

theorem along {α : Type} {p : Prog Req Resp Out ε α} {tr read : List ((r : Req) × Resp r)}
    {os : List Out} {r : Except ε α} (h : Returns p read os r) (hread : read <+: tr) :
    Along p tr read r := by
  refine ⟨hread,⟨os,h⟩,fun read' os' r' hread' h' => ?_⟩
  obtain ⟨htr,_,hr⟩ := h'.deterministic h hread' hread
  exact ⟨htr,hr⟩

theorem polls_served {c : Option κ} {tr : List ((r : Req) × Resp r)} {vs : List (List β)}
    {error : Option ε} (h : Served (Answered page) (Failed page) c tr vs error) {n : ℕ}
    (hn : vs.length < n) (k : ℕ) : ∃ read, (vs.flatten.length < k → read = tr) ∧
      Along (polls page n k (some ⟨c,[],false⟩)) tr read (.ok (outcomes k vs.flatten error)) := by
  obtain ⟨read,rest,os,rfl,hall,hreturns⟩ := polls_ahead (.pending [] h hn) k
  refine ⟨read,fun hlt => ?_,along hreturns (List.prefix_append read rest)⟩
  rw [hall hlt, List.append_nil]

/-- Some pulls of a fresh stream: the items, the error if there is one, and then the end.
Once the items are out, every reply has been asked for. -/
def Streamed (page : Option κ → Prog Req Resp Out ε (List β × Option κ)) (n k : ℕ)
    (tr : List ((r : Req) × Resp r)) (items : List β) (error : Option ε) : Prop :=
  ∃ read, (items.length < k → read = tr) ∧
    Along (polls page n k (some ⟨none,[],false⟩)) tr read (.ok
      ((items.map Polled.item ++ (error.map Polled.failed).toList ++ List.replicate k Polled.ended).take k))

theorem streamed {ν : Type} {serves : Option κ → List ((r : Req) × Resp r) → ν × Option κ → Prop}
    {f : ν → List β} (hserves : ∀ c tr v next, serves c tr (v,next) → Answered page c tr (f v,next))
    {tr : List ((r : Req) × Resp r)} {vs : List ν} {error : Option ε}
    (h : Served serves (Failed page) none tr vs error) {n : ℕ} (hn : vs.length < n) (k : ℕ) :
    Streamed page n k tr (vs.flatMap f) error := by
  obtain ⟨read,hall,halong⟩ := polls_served (h.map hserves) (by rwa [List.length_map]) k
  rw [outcomes_eq (Nat.le_refl k)] at halong
  exact ⟨read,hall,halong⟩

theorem gathered {ν : Type} {page : Option κ → Prog Req Resp Out ε (β × Option κ)} (extend : γ → β → γ)
    {serves : Option κ → List ((r : Req) × Resp r) → ν × Option κ → Prop} {f : ν → β}
    (hserves : ∀ c tr v next, serves c tr (v,next) → Answered page c tr (f v,next))
    {c : Option κ} {tr : List ((r : Req) × Resp r)} {vs : List ν} {error : Option ε}
    (h : Served serves (Failed page) c tr vs error) {n : ℕ} (hn : vs.length < n) (all : γ) :
    Along (gather page extend n c all) tr tr (overall error ((vs.map f).foldl extend all)) := by
  obtain ⟨os,hreturns⟩ := gather_served (h.map hserves) (by rwa [List.length_map]) all
  exact along hreturns (List.prefix_refl tr)

end Runs

end SlatedbCloudflare.Paging
