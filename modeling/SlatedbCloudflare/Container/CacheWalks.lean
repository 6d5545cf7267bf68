import SlatedbCloudflare.Container.CacheSize
import SlatedbCloudflare.Library.Traversals
import Mathlib.Algebra.BigOperators.Group.List.Basic
import Mathlib.Algebra.Order.Ring.Nat

/-! # When the size of the cache directory is told

The walk tolerates a directory that is gone when it gets there, and no other entry.
-/
namespace SlatedbCloudflare.AppState
open Programs Fuel Traversals

/-- The call ends the walk with an error, at once or where its stream does. -/
def Failing : (r : FileCall) × FileReply r → Prop
  | ⟨.readDir _,.ok entries⟩ => ∃ entry ∈ entries, ∃ error, entry = .error error
  | ⟨.readDir _,.error error⟩ => error ≠ .notFound
  | ⟨.metadata _,reply⟩ => ∃ error, reply = .error error

/-- What a walk cut off at `bound` needs of its calls. -/
def Good (bound : ℕ) (x : (r : FileCall) × FileReply r) : Prop :=
  ¬ Failing x ∧ ∀ path entries, x = ⟨.readDir path,.ok entries⟩ → path.length < bound

section Walks
variable {size size' : List String → WalkM UInt64} {path : List String} {bound : ℕ}
  {loop loop' : List (Except IoError String) → WalkM UInt64}

theorem readEntries_approximates (h : ∀ entries, Approximates (loop entries) (loop' entries)) :
    Approximates (readEntries path loop) (readEntries path loop') := by
  apply Approximates.call
  intro reply
  cases reply with
  | ok entries => exact h entries
  | error error => cases error <;> exact .refl _

theorem sumEntries_approximates (h : ∀ path, Approximates (size path) (size' path))
    (entries : List (Except IoError String)) (total : UInt64) :
    Approximates (sumEntries size path entries total) (sumEntries size' path entries total) := by
  induction entries generalizing total with
  | nil => exact .refl _
  | cons entry entries ih =>
    apply Approximates.bind (.refl _)
    intro name
    have hentry : Approximates (entrySize size (path ++ [name])) (entrySize size' (path ++ [name])) := by
      apply Approximates.call
      intro reply
      cases reply with
      | error error => exact .err error
      | ok metadata =>
        cases metadata with
        | directory => exact h _
        | file len => exact .ok len
    exact hentry.bind fun _ => ih _

theorem directorySizeSync_approximates (depth : ℕ) (path : List String) :
    Approximates (directorySizeSync depth path) (directorySizeSync (depth + 1) path) := by
  induction depth generalizing path with
  | zero => exact readEntries_approximates fun _ => .cut _
  | succ depth ih => exact readEntries_approximates fun entries => sumEntries_approximates ih entries 0

theorem entrySize_strict (h : (size path).Strict (Good bound)) : (entrySize size path).Strict (Good bound) := by
  have hgood : ∀ metadata, Good bound ⟨.metadata path,.ok metadata⟩ := by
    intro metadata
    simp [Good, Failing]
  intro reply
  cases reply with
  | error error => exact ⟨fun hok => absurd ⟨error,rfl⟩ hok.1,fun _ => trivial⟩
  | ok metadata =>
    refine ⟨?_,fun hbad => absurd (hgood metadata) hbad⟩
    intro _
    cases metadata with
    | directory => exact h
    | file len => trivial

theorem sumEntries_strict (h : ∀ name, (size (path ++ [name])).Strict (Good bound))
    {entries : List (Except IoError String)} (he : ∀ entry ∈ entries, ∃ name, entry = .ok name) (total : UInt64) :
    (sumEntries size path entries total).Strict (Good bound) := by
  induction entries generalizing total with
  | nil => trivial
  | cons entry entries ih =>
    obtain ⟨⟨name,rfl⟩,hrest⟩ := List.forall_mem_cons.mp he
    exact (entrySize_strict (h name)).bind fun _ => ih hrest _

theorem sumEntries_fails {entries : List (Except IoError String)} (he : ∃ entry ∈ entries, ∃ error, entry = .error error)
    (total : UInt64) : (sumEntries size path entries total).Fails := by
  induction entries generalizing total with
  | nil => simp at he
  | cons entry entries ih =>
    cases entry with
    | error error => trivial
    | ok name =>
      have hrest : ∃ entry ∈ entries, ∃ error, entry = .error error := by simpa using he
      change (entrySize size (path ++ [name]) >>= fun added => sumEntries size path entries (total + added)).Fails
      exact Prog.Fails.of_bind fun _ => ih hrest _

theorem readEntries_strict
    (hgood : ∀ entries, Good bound ⟨.readDir path,.ok entries⟩ → (loop entries).Strict (Good bound))
    (hbad : ∀ entries, ¬ Good bound ⟨.readDir path,.ok entries⟩ → (loop entries).Fails) :
    (readEntries path loop).Strict (Good bound) := by
  intro reply
  cases reply with
  | ok entries => exact ⟨hgood entries,hbad entries⟩
  | error error =>
    cases error with
    | notFound => exact ⟨fun _ => trivial,fun h => absurd (by simp [Good, Failing]) h⟩
    | other error => exact ⟨fun h => absurd (by simp [Failing]) h.1,fun _ => trivial⟩

/-- The walk ends well exactly if all its calls do, in directories that are not too deep. -/
theorem directorySizeSync_strict {depth : ℕ} (h : path.length + depth = bound) :
    (directorySizeSync depth path).Strict (Good bound) := by
  induction depth generalizing path with
  | zero =>
    apply readEntries_strict
    · intro entries hgood
      have hlt := hgood.2 path entries rfl
      omega
    · exact fun _ _ => trivial
  | succ depth ih =>
    apply readEntries_strict
    · intro entries hgood
      apply sumEntries_strict
      · intro name
        apply ih
        rw [List.length_append, List.length_singleton]
        omega
      · intro entry hentry
        cases entry with
        | ok name => exact ⟨name,rfl⟩
        | error error => exact absurd ⟨_,hentry,error,rfl⟩ hgood.1
    · intro entries hbad
      apply sumEntries_fails
      by_contra hnone
      refine hbad ⟨hnone,?_⟩
      rintro path' entries' heq
      cases heq
      omega

end Walks

namespace Entries
variable {e entries : Entries} {name : String}

theorem Distinct.nodup (h : e.Distinct) : e.names.Nodup := by
  induction e with
  | nil => exact List.nodup_nil
  | file name len others ih => exact List.nodup_cons.mpr ⟨h.1,ih h.2⟩
  | dir name entries others _ ih => exact List.nodup_cons.mpr ⟨h.1,ih h.2.2⟩

theorem Distinct.inner (h : e.Distinct) (hmem : (name,Entry.dir entries) ∈ e.toList) : entries.Distinct := by
  induction e with
  | nil => cases hmem
  | file _ _ others ih =>
    rcases List.mem_cons.mp hmem with heq | hmem
    · cases heq
    · exact ih h.2 hmem
  | dir _ _ others _ ih =>
    rcases List.mem_cons.mp hmem with heq | hmem
    · cases heq
      exact h.2.1
    · exact ih h.2.2 hmem

theorem height_inner (hmem : (name,Entry.dir entries) ∈ e.toList) : entries.height + 1 ≤ e.height := by
  induction e with
  | nil => cases hmem
  | file _ _ others ih =>
    rcases List.mem_cons.mp hmem with heq | hmem
    · cases heq
    · exact ih hmem
  | dir _ _ others _ ih =>
    rcases List.mem_cons.mp hmem with heq | hmem
    · cases heq
      exact le_max_left _ _
    · exact (ih hmem).trans (le_max_right _ _)

theorem height_pos (e : Entries) : 0 < e.height := by
  induction e with
  | nil => exact Nat.one_pos
  | file _ _ others ih => exact ih
  | dir _ _ others _ ih => exact ih.trans_le (le_max_right _ _)

theorem total_eq (e : Entries) : e.total = (e.toList.map (fun entry => entry.2.total)).sum := by
  induction e with
  | nil => rfl
  | file name len others ih => rw [total, toList, List.map_cons, List.sum_cons, ← ih]; rfl
  | dir name entries others _ ih => rw [total, toList, List.map_cons, List.sum_cons, ← ih]; rfl

def sizeOf (e : Entries) (name : String) : ℕ := ((e.toList.lookup name).map Entry.total).getD 0

theorem sum_sizeOf (h : e.Distinct) : (e.names.map e.sizeOf).sum = e.total := by
  rw [total_eq, names, List.map_map]
  congr 1
  apply List.map_congr_left
  intro entry hentry
  rw [Function.comp_apply, sizeOf, lookup_distinct h.nodup hentry]
  rfl

end Entries

theorem find_snoc {path : List String} {entry : Entry} {entries : Entries} {name : String} {e : Entry}
    (h : find path entry = .ok (.dir entries)) (hname : entries.toList.lookup name = some e) :
    find (path ++ [name]) entry = .ok e := by
  induction path generalizing entry with
  | nil =>
    cases h
    rw [List.nil_append, find, hname]
    rfl
  | cons first path ih =>
    cases entry with
    | file len => cases h
    | dir top =>
      rw [find] at h
      rw [List.cons_append, find]
      cases hfirst : top.toList.lookup first with
      | none =>
        rw [hfirst] at h
        cases h
      | some inner =>
        rw [hfirst] at h
        exact ih h

/-- What an item of a stream stands for. -/
def itemSize (f : String → ℕ) : Except IoError String → ℕ
  | .ok name => f name
  | .error _ => 0

theorem sumEntries_timed {answer : ℕ → (r : FileCall) → FileReply r} (size : List String → WalkM UInt64)
    {path : List String} (f : String → ℕ) {items : List (Except IoError String)}
    (h : ∀ item ∈ items, ∃ name, item = .ok name ∧
      ∀ n, (timed answer n (entrySize size (path ++ [name]))).2 = .ok (UInt64.ofNat (f name))) (n total : ℕ) :
    (timed answer n (sumEntries size path items (UInt64.ofNat total))).2 =
      .ok (UInt64.ofNat (total + (items.map (itemSize f)).sum)) := by
  induction items generalizing n total with
  | nil => cases n <;> rfl
  | cons item items ih =>
    obtain ⟨⟨name,rfl,hname⟩,hrest⟩ := List.forall_mem_cons.mp h
    obtain ⟨m,hm⟩ := timed_bind_ok (f := fun added => sumEntries size path items (UInt64.ofNat total + added)) (hname n)
    have hstep := ih hrest m (total + f name)
    rw [UInt64.ofNat_add] at hstep
    rw [List.map_cons, List.sum_cons, ← Nat.add_assoc]
    exact hm.trans hstep

/-- In a directory that stays as it is, the walk finds every size. -/
theorem directorySizeSync_unchanged {W : Interleaving} {top : Entries} (hroot : ∀ n, W.root n = some top)
    {depth : ℕ} {path : List String} {entries : Entries} (hfind : find path (.dir top) = .ok (.dir entries))
    (hdistinct : entries.Distinct) (hdepth : entries.height ≤ depth) (n : ℕ) :
    (timed W.reply n (directorySizeSync depth path)).2 = .ok (UInt64.ofNat entries.total) := by
  induction depth generalizing path entries n with
  | zero => exact absurd hdepth (Nat.not_le.mpr entries.height_pos)
  | succ depth ih =>
    have hentry : ∀ m path, W.entryAt m path = find path (.dir top) := by
      intro m path
      rw [Interleaving.entryAt, hroot]
    have hread : W.reply n (.readDir path) = .ok (W.listed n path) := by
      rw [Interleaving.reply, hentry, hfind]
    have hperm := W.settled (fun m => (hroot m).trans (hroot 0).symm) n path top entries (hroot n) hfind
    have hitems : ∀ item ∈ W.listed n path, ∃ name, item = .ok name ∧ ∀ m,
        (timed W.reply m (entrySize (directorySizeSync depth) (path ++ [name]))).2 =
          .ok (UInt64.ofNat (entries.sizeOf name)) := by
      intro item hitem
      obtain ⟨name,hname,rfl⟩ := List.mem_map.mp (hperm.mem_iff.mp hitem)
      obtain ⟨⟨name,entry⟩,hmem,rfl⟩ := List.mem_map.mp hname
      refine ⟨_,rfl,?_⟩
      intro m
      have hlookup := lookup_distinct hdistinct.nodup hmem
      have hmetadata : W.reply m (.metadata (path ++ [name])) = .ok entry.metadata := by
        rw [Interleaving.reply, hentry, find_snoc hfind hlookup]
        rfl
      rw [entrySize, Prog.ask_bind, timed, hmetadata, Entries.sizeOf, hlookup]
      cases entry with
      | file len =>
        have hlen : len = UInt64.ofNat len.toNat := UInt64.ofNat_toNat.symm
        exact congrArg Except.ok hlen
      | dir inner =>
        have hheight := Entries.height_inner hmem
        exact ih (find_snoc hfind hlookup) (hdistinct.inner hmem) (by omega) (m + 1)
    have hsum : ((W.listed n path).map (itemSize entries.sizeOf)).sum = entries.total := by
      rw [(hperm.map _).sum_eq, List.map_map]
      exact entries.sum_sizeOf hdistinct
    rw [directorySizeSync, readEntries, Prog.ask_bind, timed, hread]
    have hloop := sumEntries_timed (directorySizeSync depth) entries.sizeOf hitems (n + 1) 0
    rw [Nat.zero_add, hsum] at hloop
    exact hloop

namespace Interleaving
variable (W : Interleaving)

/-- What `stats` relies on while other tasks use the cache. -/
structure TellsSize : Prop where
  survives : ∃ size, W.ReturnsOk size
  exact : W.Unchanged → ∃ size, W.ReturnsOk size ∧ size.toNat = W.total

/-- No entry vanishes between the calls that read it, the directories entered are not
ever deeper, and the sizes fit into 64 bits. -/
structure Calm : Prop where
  kept : ∀ x, W.Made x → ¬ Failing x
  shallow : ∃ bound, ∀ path entries, W.Made ⟨.readDir path,.ok entries⟩ → path.length < bound
  fits : W.Unchanged → W.total < 2 ^ 64

variable {W}

theorem walk_ok (depth : ℕ) : (∃ size, (timed W.reply 0 (directorySizeSync depth [])).2 = .ok size) ↔
    ∀ x ∈ (timed W.reply 0 (directorySizeSync depth [])).1, Good depth x :=
  (timed_returns _).strict (directorySizeSync_strict (Nat.zero_add depth))

theorem survives_iff : (∃ size, W.ReturnsOk size) ↔ (∀ x, W.Made x → ¬ Failing x) ∧
    ∃ bound, ∀ path entries, W.Made ⟨.readDir path,.ok entries⟩ → path.length < bound := by
  constructor
  · rintro ⟨size,depth,hsize⟩
    have hgood := (walk_ok depth).mp ⟨size,hsize⟩
    have hmade : ∀ x, W.Made x → Good depth x := by
      intro x hx
      apply hgood
      exact made_of_finished (fun depth => directorySizeSync_approximates depth []) hsize hx
    exact ⟨fun x hx => (hmade x hx).1,depth,fun path entries hx => (hmade _ hx).2 path entries rfl⟩
  · rintro ⟨hkept,bound,hshallow⟩
    have hgood : ∀ x ∈ (timed W.reply 0 (directorySizeSync bound [])).1, Good bound x := by
      intro x hx
      have hmade : W.Made x := ⟨bound,hx⟩
      refine ⟨hkept x hmade,?_⟩
      rintro path entries rfl
      exact hshallow path entries hmade
    obtain ⟨size,hsize⟩ := (walk_ok bound).mpr hgood
    exact ⟨size,bound,hsize⟩

theorem returns_unchanged (h : W.Unchanged) : W.ReturnsOk (UInt64.ofNat W.total) := by
  cases hroot : W.root 0 with
  | none =>
    have hread : W.reply 0 (.readDir []) = .error .notFound := by rw [reply, entryAt, hroot]
    refine ⟨0,?_⟩
    change (timed W.reply 0 (readEntries [] _)).2 = _
    rw [readEntries, Prog.ask_bind, timed, hread, total, hroot]
    rfl
  | some top =>
    have hall : ∀ n, W.root n = some top := fun n => (h n).trans hroot
    refine ⟨top.height,?_⟩
    rw [total, hroot]
    exact directorySizeSync_unchanged hall rfl (W.distinct 0 top hroot) le_rfl 0

/-- The size is told exactly if nothing the walk has seen vanishes before it gets there. -/
theorem tellsSize_iff (W : Interleaving) : W.TellsSize ↔ W.Calm := by
  constructor
  · intro h
    obtain ⟨hkept,hshallow⟩ := survives_iff.mp h.survives
    refine ⟨hkept,hshallow,?_⟩
    intro hunchanged
    obtain ⟨size,_,hsize⟩ := h.exact hunchanged
    rw [← hsize]
    exact size.toNat_lt
  · intro h
    refine ⟨survives_iff.mpr ⟨h.kept,h.shallow⟩,?_⟩
    intro hunchanged
    exact ⟨_,returns_unchanged hunchanged,UInt64.toNat_ofNat_of_lt' (h.fits hunchanged)⟩

/-- Only what has vanished cannot be read. -/
def OnlyVanishes (W : Interleaving) : Prop :=
  ∀ x, W.Made x → match x with
    | ⟨.readDir _,.ok entries⟩ => ∀ entry ∈ entries, ∀ error, entry = .error error → error = .notFound
    | ⟨.readDir _,.error error⟩ => error = .notFound
    | ⟨.metadata _,.ok _⟩ => True
    | ⟨.metadata _,.error error⟩ => error = .notFound

def temporary : Entries := .file "part.tmp" 5 .nil

/-- A temporary file is deleted after it was listed. -/
def deletion : Interleaving where
  root n := some (if n = 0 then temporary else .nil)
  listed _ _ := [.ok "part.tmp"]
  distinct := by
    intro n entries h
    cases h
    split_ifs
    · exact ⟨List.not_mem_nil,trivial⟩
    · trivial
  settled := by
    intro h
    cases h 1

theorem deletion_fails : ¬ ∀ W : Interleaving, W.OnlyVanishes → W.TellsSize := by
  intro h
  have hmade : ∀ x, deletion.Made x → x = ⟨.readDir [],.ok [.ok "part.tmp"]⟩ ∨
      x = ⟨.metadata ["part.tmp"],.error .notFound⟩ := by
    rintro x ⟨depth,hx⟩
    cases depth with
    | zero => exact .inl (List.mem_singleton.mp hx)
    | succ depth =>
      rcases List.mem_cons.mp hx with hx | hx
      · exact .inl hx
      · exact .inr (List.mem_singleton.mp hx)
  have honly : deletion.OnlyVanishes := by
    intro x hx
    rcases hmade x hx with rfl | rfl
    · intro entry hentry error heq
      rw [List.mem_singleton] at hentry
      rw [hentry] at heq
      cases heq
    · rfl
  obtain ⟨size,depth,hsize⟩ := (h deletion honly).survives
  cases depth <;> cases hsize

end Interleaving

end SlatedbCloudflare.AppState
