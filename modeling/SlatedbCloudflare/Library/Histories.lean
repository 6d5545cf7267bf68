import SlatedbCloudflare.Library.KeyedStore
import Mathlib.Logic.Function.Basic
import Mathlib.Data.List.Basic
import Mathlib.Data.Prod.Basic

/-! # Histories of key-value stores

Named maps are written to, read and scanned. A history is a sequence of commands with
what they saw; it is legal if one store, taking them one after another, shows just that.
What a history writes to a map can be kept as a log, and the map replayed from it.
-/
namespace SlatedbCloudflare.Histories
open Function KeyedStore

variable {N K V K' V' : Type}

abbrev Store (N K V : Type) := N → K → Option V

abbrev Write (K V : Type) := K × Option V

/-- A command with what it saw. -/
inductive Command (N K V : Type)
  | put (name : N) (key : K) (value : V)
  | delete (name : N) (key : K)
  | get (name : N) (key : K) (found : Option V)
  | scan (name : N) (start : K) (entries : List (K × V))

/-- How the keys are ordered, and which begin with a given one. -/
structure Keys (K : Type) where
  Before : K → K → Prop
  Begins : K → K → Prop

/-- The entries of a map whose keys begin with `start`, in order. -/
structure Lists (keys : Keys K) (content : K → Option V) (start : K) (entries : List (K × V)) : Prop where
  sorted : entries.Pairwise (fun a b => keys.Before a.1 b.1)
  complete : ∀ k v, (k,v) ∈ entries ↔ content k = some v ∧ keys.Begins start k

namespace Command

def write [DecidableEq N] (name : N) : Command N K V → Option (Write K V)
  | .put n key value => if n = name then some (key,some value) else none
  | .delete n key => if n = name then some (key,none) else none
  | .get _ _ _ => none
  | .scan _ _ _ => none

/-- The store shows what the command saw. -/
def Sees (keys : Keys K) (m : Store N K V) : Command N K V → Prop
  | .put _ _ _ => True
  | .delete _ _ => True
  | .get name key found => m name key = found
  | .scan name start entries => Lists keys (m name) start entries

def map (f : K → K') (g : V → V') : Command N K V → Command N K' V'
  | .put name key value => .put name (f key) (g value)
  | .delete name key => .delete name (f key)
  | .get name key found => .get name (f key) (found.map g)
  | .scan name start entries => .scan name (f start) (entries.map (Prod.map f g))

def name : Command N K V → N
  | .put name _ _ => name
  | .delete name _ => name
  | .get name _ _ => name
  | .scan name _ _ => name

end Command

section Stores
variable [DecidableEq N] [DecidableEq K]

def applyWrite (m : K → Option V) (w : Write K V) : K → Option V := update m w.1 w.2

def Command.apply (m : Store N K V) (c : Command N K V) : Store N K V :=
  fun name => (c.write name).elim (m name) (applyWrite (m name))

def Legal (keys : Keys K) : Store N K V → List (Command N K V) → Prop
  | _, [] => True
  | m, c :: cs => c.Sees keys m ∧ Legal keys (c.apply m) cs

def outcome (m : Store N K V) (cs : List (Command N K V)) : Store N K V := cs.foldl Command.apply m

variable {keys : Keys K} {m : Store N K V} {cs cs' : List (Command N K V)}

@[simp] theorem outcome_nil (m : Store N K V) : outcome m [] = m := rfl

@[simp] theorem outcome_cons (m : Store N K V) (c : Command N K V) (cs : List (Command N K V)) :
    outcome m (c :: cs) = outcome (c.apply m) cs := rfl

theorem outcome_append (m : Store N K V) (cs cs' : List (Command N K V)) :
    outcome m (cs ++ cs') = outcome (outcome m cs) cs' := List.foldl_append

theorem legal_append : Legal keys m (cs ++ cs') ↔ Legal keys m cs ∧ Legal keys (outcome m cs) cs' := by
  induction cs generalizing m with
  | nil => simp [Legal]
  | cons c cs ih => rw [List.cons_append, Legal, ih, Legal, outcome_cons, and_assoc]

section About
variable {m' : Store N K V} {name : N}

def about (name : N) (cs : List (Command N K V)) : List (Command N K V) := cs.filter (fun c => c.name = name)

omit [DecidableEq K] in
theorem about_append (name : N) (cs cs' : List (Command N K V)) :
    about name (cs ++ cs') = about name cs ++ about name cs' := List.filter_append ..

omit [DecidableEq N] [DecidableEq K] in
theorem Command.Sees.of_eq {c : Command N K V} (h : c.Sees keys m) (heq : m c.name = m' c.name) : c.Sees keys m' := by
  cases c with
  | put | delete => trivial
  | get name key found => exact (congrFun heq key).symm.trans h
  | scan name start entries =>
    have hmap : m name = m' name := heq
    change Lists keys (m' name) start entries
    rw [← hmap]
    exact h

omit [DecidableEq K] in
theorem write_of_ne {c : Command N K V} (h : c.name ≠ name) : c.write name = none := by
  cases c with
  | put => exact if_neg h
  | delete => exact if_neg h
  | get | scan => rfl

theorem apply_eq_of_ne {c : Command N K V} (h : c.name ≠ name) : c.apply m name = m name := by
  rw [Command.apply, write_of_ne h]
  rfl

theorem apply_congr (c : Command N K V) (heq : m name = m' name) : c.apply m name = c.apply m' name := by
  rw [Command.apply, Command.apply, heq]

/-- What a history does to a map is what the part about it does. -/
theorem outcome_about {cs : List (Command N K V)} (heq : m name = m' name) :
    outcome m cs name = outcome m' (about name cs) name := by
  induction cs generalizing m m' with
  | nil => exact heq
  | cons c cs ih =>
    by_cases hc : c.name = name
    · rw [about, List.filter_cons_of_pos (by simpa using hc)]
      exact ih (apply_congr c heq)
    · rw [about, List.filter_cons_of_neg (by simpa using hc)]
      exact ih ((apply_eq_of_ne hc).trans heq)

/-- The part of a legal history about a map is legal where that map is the same. -/
theorem Legal.about {cs : List (Command N K V)} (h : Legal keys m cs) (heq : m name = m' name) :
    Legal keys m' (about name cs) := by
  induction cs generalizing m m' with
  | nil => trivial
  | cons c cs ih =>
    obtain ⟨hsees,hrest⟩ := h
    by_cases hc : c.name = name
    · rw [Histories.about, List.filter_cons_of_pos (by simpa using hc)]
      refine ⟨hsees.of_eq ?_,ih hrest (apply_congr c heq)⟩
      rw [hc]
      exact heq
    · rw [Histories.about, List.filter_cons_of_neg (by simpa using hc)]
      exact ih hrest ((apply_eq_of_ne hc).trans heq)

end About

section Presence
variable {name : N} {key : K}

/-- What is not deleted stays. -/
theorem present_outcome (h : m name key ≠ none) (hcs : ∀ c ∈ cs, c ≠ .delete name key) :
    outcome m cs name key ≠ none := by
  induction cs generalizing m with
  | nil => exact h
  | cons c cs ih =>
    obtain ⟨hc,hrest⟩ := List.forall_mem_cons.mp hcs
    apply ih _ hrest
    cases c with
    | get | scan => exact h
    | put n k v =>
      rw [Command.apply, Command.write]
      split_ifs with hn
      · rw [Option.elim_some, applyWrite, update_apply]
        split_ifs
        · exact Option.some_ne_none v
        · exact h
      · exact h
    | delete n k =>
      rw [Command.apply, Command.write]
      split_ifs with hn
      · subst hn
        have hk : key ≠ k := by
          rintro rfl
          exact hc rfl
        rw [Option.elim_some, applyWrite, update_of_ne hk]
        exact h
      · exact h

/-- What was put and not deleted is there. -/
theorem present_of_put {value : V} (hput : .put name key value ∈ cs) (hcs : ∀ c ∈ cs, c ≠ .delete name key) :
    outcome m cs name key ≠ none := by
  obtain ⟨before,after,rfl⟩ := List.append_of_mem hput
  rw [outcome_append, outcome_cons]
  apply present_outcome
  · simp [Command.apply, Command.write, applyWrite]
  · exact fun c hc => hcs c (List.mem_append_right _ (List.mem_cons_of_mem _ hc))

theorem Legal.get {found : Option V} {cs cs' : List (Command N K V)} (h : Legal keys m (cs ++ .get name key found :: cs')) :
    outcome m cs name key = found := (legal_append.mp h).2.1

end Presence

end Stores

section Losses

/-- A list split where `k` of its elements have been kept, with nothing that is not counted after it. -/
theorem exists_cut {α β : Type} (f : α → Option β) (xs : List α) {k : ℕ} (h : k ≤ (xs.filterMap f).length) :
    ∃ as bs, xs = as ++ bs ∧ as.filterMap f = (xs.filterMap f).take k ∧ ∀ b ∈ bs.head?, f b ≠ none := by
  induction xs generalizing k with
  | nil => exact ⟨[],[],rfl,by simp,by simp⟩
  | cons x xs ih =>
    cases hx : f x with
    | none =>
      rw [List.filterMap_cons_none hx] at h ⊢
      obtain ⟨as,bs,rfl,has,hbs⟩ := ih h
      exact ⟨x :: as,bs,rfl,by rw [List.filterMap_cons_none hx, has],hbs⟩
    | some y =>
      rw [List.filterMap_cons_some hx] at h ⊢
      cases k with
      | zero => exact ⟨[],x :: xs,rfl,rfl,by simp [hx]⟩
      | succ k =>
        obtain ⟨as,bs,rfl,has,hbs⟩ := ih (Nat.le_of_succ_le_succ h)
        exact ⟨x :: as,bs,rfl,by rw [List.filterMap_cons_some hx, has, List.take_succ_cons],hbs⟩

end Losses

section Logs
variable [DecidableEq N]

def writes (name : N) (cs : List (Command N K V)) : List (Write K V) := cs.filterMap (Command.write name)

theorem writes_append (name : N) (cs cs' : List (Command N K V)) :
    writes name (cs ++ cs') = writes name cs ++ writes name cs' := List.filterMap_append ..

variable [DecidableEq K]

def replay (log : List (Write K V)) : K → Option V := log.foldl applyWrite fun _ => none

def stored (logs : N → List (Write K V)) : Store N K V := fun name => replay (logs name)

variable {logs logs' : N → List (Write K V)}

theorem replay_snoc (log : List (Write K V)) (w : Write K V) : replay (log ++ [w]) = applyWrite (replay log) w := by
  rw [replay, replay, List.foldl_append, List.foldl_cons, List.foldl_nil]

/-- A log that got the writes of a command has its map. -/
theorem stored_append (c : Command N K V) (h : ∀ name, logs' name = logs name ++ (c.write name).toList) :
    stored logs' = c.apply (stored logs) := by
  funext name
  rw [stored, h name, Command.apply]
  cases hw : c.write name with
  | none => simp [stored]
  | some w => exact replay_snoc (logs name) w

theorem stored_writes (logs : N → List (Write K V)) (cs : List (Command N K V)) :
    stored (fun name => logs name ++ writes name cs) = outcome (stored logs) cs := by
  induction cs generalizing logs with
  | nil => simp [writes]
  | cons c cs ih =>
    have hfirst : stored (fun name => logs name ++ (c.write name).toList) = c.apply (stored logs) :=
      stored_append c fun _ => rfl
    have hlogs : (fun name => logs name ++ writes name (c :: cs)) =
        fun name => (logs name ++ (c.write name).toList) ++ writes name cs := by
      funext name
      rw [List.append_assoc]
      cases hw : c.write name with
      | none => simp [writes, List.filterMap_cons_none hw]
      | some w => simp [writes, List.filterMap_cons_some hw]
    rw [hlogs, ih, hfirst, outcome_cons]

end Logs

section Embeddings
variable {f : K → K'} {g : V → V'} {f' : K' → K} {g' : V' → V} {keys : Keys K} {keys' : Keys K'}

/-- Keys and values are read back from the embedded ones, which are ordered and begin as they do. -/
structure Embeds (f : K → K') (g : V → V') (f' : K' → K) (g' : V' → V) (keys : Keys K) (keys' : Keys K') :
    Prop where
  key_inverse : LeftInverse f' f
  value_inverse : LeftInverse g' g
  before : ∀ a b, keys'.Before (f a) (f b) ↔ keys.Before a b
  begins : ∀ a b, keys'.Begins (f a) (f b) ↔ keys.Begins a b

/-- The maps of `m'` are those of `m` with embedded keys and values. -/
def Shows (f : K → K') (g : V → V') (m' : Store N K' V') (m : Store N K V) : Prop :=
  ∀ name, Represents f (fun _ => g) (m' name) (m name)

def Command.Given (f : K → K') (g : V → V') : Command N K' V' → Prop
  | .put _ key value => (∃ k, f k = key) ∧ ∃ v, g v = value
  | .delete _ key => ∃ k, f k = key
  | .get _ key _ => ∃ k, f k = key
  | .scan _ start _ => ∃ k, f k = start

variable {m : Store N K V} {m' : Store N K' V'}

theorem Shows.entry (h : Shows f g m' m) {name : N} {k' : K'} {v' : V'} (hk : m' name k' = some v') :
    ∃ k v, f k = k' ∧ g v = v' ∧ m name k = some v := by
  obtain ⟨k,rfl⟩ := (h name).keys k' (by rw [hk]; exact Option.some_ne_none v')
  rw [(h name).slots k, Option.map_eq_some_iff] at hk
  obtain ⟨v,hv,rfl⟩ := hk
  exact ⟨k,v,rfl,rfl,hv⟩

theorem map_decoded (he : Embeds f g f' g' keys keys') {entries : List (K' × V')}
    (h : ∀ entry ∈ entries, ∃ k v, f k = entry.1 ∧ g v = entry.2) :
    (entries.map (Prod.map f' g')).map (Prod.map f g) = entries := by
  induction entries with
  | nil => rfl
  | cons entry entries ih =>
    obtain ⟨⟨k,v,hk,hv⟩,hrest⟩ := List.forall_mem_cons.mp h
    obtain ⟨k',v'⟩ := entry
    subst hk hv
    rw [List.map_cons, List.map_cons, ih hrest, Prod.map_apply, Prod.map_apply, he.key_inverse, he.value_inverse]

/-- The entries of an embedded map are the embedded entries. -/
theorem Shows.lists (h : Shows f g m' m) (he : Embeds f g f' g' keys keys') {name : N} {start : K}
    {entries : List (K' × V')} (hl : Lists keys' (m' name) (f start) entries) :
    (entries.map (Prod.map f' g')).map (Prod.map f g) = entries ∧
      Lists keys (m name) start (entries.map (Prod.map f' g')) := by
  have hdecoded : (entries.map (Prod.map f' g')).map (Prod.map f g) = entries := by
    apply map_decoded he
    rintro ⟨k',v'⟩ hmem
    obtain ⟨hcontent,_⟩ := (hl.complete k' v').mp hmem
    obtain ⟨k,v,hk,hv,_⟩ := h.entry hcontent
    exact ⟨k,v,hk,hv⟩
  refine ⟨hdecoded,?_⟩
  generalize entries.map (Prod.map f' g') = shown at hdecoded
  subst hdecoded
  have hinjective : Injective (Prod.map f g) := he.key_inverse.injective.prodMap he.value_inverse.injective
  constructor
  · have hsorted := List.pairwise_map.mp hl.sorted
    exact hsorted.imp fun hab => (he.before _ _).mp hab
  · intro k v
    have hcomplete := hl.complete (f k) (g v)
    have hmem : (f k,g v) ∈ shown.map (Prod.map f g) ↔ (k,v) ∈ shown :=
      List.mem_map_of_injective (a := (k,v)) hinjective
    rw [← hmem, hcomplete, he.begins, (h name).slots k]
    have hvalue : (m name k).map g = some (g v) ↔ m name k = some v :=
      (Option.map_injective he.value_inverse.injective).eq_iff' rfl
    rw [hvalue]

theorem Shows.sees (h : Shows f g m' m) (he : Embeds f g f' g' keys keys') {c : Command N K' V'}
    (hc : c.Given f g) (hs : c.Sees keys' m') :
    (c.map f' g').map f g = c ∧ (c.map f' g').Sees keys m := by
  cases c with
  | put name key value =>
    obtain ⟨⟨k,rfl⟩,v,rfl⟩ := hc
    refine ⟨?_,trivial⟩
    rw [Command.map, Command.map, he.key_inverse, he.value_inverse]
  | delete name key =>
    obtain ⟨k,rfl⟩ := hc
    refine ⟨?_,trivial⟩
    rw [Command.map, Command.map, he.key_inverse]
  | get name key found =>
    obtain ⟨k,rfl⟩ := hc
    have hfound : (m name k).map g = found := ((h name).slots k).symm.trans hs
    subst hfound
    have hread : ((m name k).map g).map g' = m name k := by
      rw [Option.map_map, he.value_inverse.comp_eq_id, Option.map_id, id]
    rw [Command.map, Command.map, he.key_inverse, hread]
    exact ⟨rfl,rfl⟩
  | scan name start entries =>
    obtain ⟨k,rfl⟩ := hc
    obtain ⟨hentries,hlists⟩ := h.lists he hs
    rw [Command.map, Command.map, he.key_inverse, hentries]
    exact ⟨rfl,hlists⟩

section Histories
variable [DecidableEq N] [DecidableEq K] [DecidableEq K']

theorem Shows.apply (h : Shows f g m' m) (hf : Injective f) (c : Command N K V) :
    Shows f g ((c.map f g).apply m') (c.apply m) := by
  intro name
  have hwrite : (c.map f g).write name = (c.write name).map (Prod.map f (Option.map g)) := by
    cases c with
    | put n => by_cases hn : n = name <;> simp [Command.map, Command.write, hn]
    | delete n => by_cases hn : n = name <;> simp [Command.map, Command.write, hn]
    | get => rfl
    | scan => rfl
  rw [Command.apply, Command.apply, hwrite]
  cases c.write name with
  | none => exact h name
  | some w => exact (h name).set hf w.1 w.2

/-- A legal history of embedded commands is a legal history embedded. -/
theorem Shows.legal (h : Shows f g m' m) (he : Embeds f g f' g' keys keys') {cs : List (Command N K' V')}
    (hcs : ∀ c ∈ cs, c.Given f g) (hl : Legal keys' m' cs) :
    Legal keys m (cs.map (Command.map f' g')) ∧
      Shows f g (outcome m' cs) (outcome m (cs.map (Command.map f' g'))) := by
  induction cs generalizing m m' with
  | nil => exact ⟨trivial,h⟩
  | cons c cs ih =>
    obtain ⟨hgiven,hrest⟩ := List.forall_mem_cons.mp hcs
    obtain ⟨hsees,hlegal⟩ := hl
    obtain ⟨hc,hread⟩ := h.sees he hgiven hsees
    have happly := h.apply he.key_inverse.injective (c.map f' g')
    rw [hc] at happly
    obtain ⟨hlegal',hshows⟩ := ih happly hrest hlegal
    exact ⟨⟨hread,hlegal'⟩,hshows⟩

end Histories

end Embeddings

end SlatedbCloudflare.Histories
