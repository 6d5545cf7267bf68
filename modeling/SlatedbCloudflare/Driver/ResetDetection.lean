import SlatedbCloudflare.Driver.Telemetry
import Mathlib.Algebra.BigOperators.Group.List.Basic

/-! # Whether both detectors see a lost counter

`assertNoObjectReset` goes through the counters of the earlier snapshot, and
`adapterDelta` through those of the later one. A counter that is missing later
escapes the second loop.
-/
namespace SlatedbCloudflare.Benchmark
open Traversals

namespace AdapterCounters
variable {a : AdapterCounters} {name : String}

theorem get?_iff {v : ℕ} : a.get? name = some v ↔ (name,v) ∈ a.entries := by
  constructor
  · intro h
    obtain ⟨l₁,l₂,hl,_⟩ := List.lookup_eq_some_iff.mp h
    rw [hl]
    simp
  · exact fun h => lookup_distinct a.distinct h

theorem value_of_mem {e : String × ℕ} (he : e ∈ a.entries) : a.value e.1 = e.2 := by
  rw [value, get?_iff.mpr he]
  rfl

theorem value_of_none (h : a.get? name = none) : a.value name = 0 := by
  rw [value, h]
  rfl

end AdapterCounters

def snapshots {databases : List String} (before after : Checkpoint databases) :
    List (DatabaseStatus × DatabaseStatus) := before.statuses.zip after.statuses

section Detectors
variable {databases : List String} {before after : Checkpoint databases}

/-- Some counter of some database is lower later. -/
def Fell (before after : Checkpoint databases) : Prop :=
  ∃ p ∈ snapshots before after, ∃ name, p.2.adapter.value name < p.1.adapter.value name

/-- Some counter that is present later is lower than before. -/
def FellInSight (before after : Checkpoint databases) : Prop :=
  ∃ p ∈ snapshots before after, ∃ e ∈ p.2.adapter.entries, e.2 < p.1.adapter.value e.1

theorem adapterDelta_eq : adapterDelta before.statuses after.statuses =
    (snapshots before after).foldlM (fun delta p => p.2.adapter.entries.foldlM (addDelta (some p.1)) delta)
      (fun _ => none) := by
  have hpairs : after.statuses.zipIdx.map (fun status => (before.statuses[status.2]?,status.1)) =
      (snapshots before after).map (fun p => (some p.1,p.2)) := by
    have hlength : before.statuses.length = after.statuses.length := before.complete.trans after.complete.symm
    apply List.ext_getElem
    · simp [snapshots, hlength]
    · intro i h₁ h₂
      have hi : i < before.statuses.length := by simpa [hlength] using h₁
      simp [snapshots, List.getElem?_eq_getElem hi]
  have hmap := congrArg (List.foldlM (m := Except String) (fun delta (p : Option DatabaseStatus × DatabaseStatus) =>
    p.2.adapter.entries.foldlM (addDelta p.1) delta) (fun _ => none)) hpairs
  rw [List.foldlM_map, List.foldlM_map] at hmap
  exact hmap

theorem addDelta_error {before : DatabaseStatus} {delta : Delta} {e : String × ℕ} :
    (∃ message, addDelta (some before) delta e = .error message) ↔ e.2 < before.adapter.value e.1 := by
  change (∃ message, (if e.2 < before.adapter.value e.1 then Except.error _ else Except.ok _) = .error message) ↔ _
  split_ifs with h <;> simp [h]

theorem adapterDelta_throws :
    (∃ message, adapterDelta before.statuses after.statuses = .error message) ↔ FellInSight before after := by
  have hdatabase : ∀ (delta : Delta) (p : DatabaseStatus × DatabaseStatus),
      (∃ message, p.2.adapter.entries.foldlM (addDelta (some p.1)) delta = .error message) ↔
        ∃ e ∈ p.2.adapter.entries, e.2 < p.1.adapter.value e.1 := by
    intro delta p
    apply foldlM_error
    exact fun _ _ => addDelta_error
  rw [adapterDelta_eq]
  exact foldlM_error hdatabase _ _

theorem assertNotFallen_error {current : AdapterCounters} {e : String × ℕ} :
    (∃ message, assertNotFallen current e = .error message) ↔ current.value e.1 < e.2 := by
  unfold assertNotFallen
  split_ifs with h <;> simp [h]

theorem mem_snapshots {p : DatabaseStatus × DatabaseStatus} : p ∈ snapshots before after ↔
    ∃ index < databases.length, before.statuses[index]? = some p.1 ∧ after.statuses[index]? = some p.2 := by
  rw [snapshots, List.mem_iff_getElem?]
  simp only [List.getElem?_zip_eq_some]
  constructor
  · rintro ⟨index,hbefore,hafter⟩
    have hlt := (List.getElem?_eq_some_iff.mp hbefore).1
    exact ⟨index,before.complete ▸ hlt,hbefore,hafter⟩
  · rintro ⟨index,_,hbefore,hafter⟩
    exact ⟨index,hbefore,hafter⟩

theorem fell_iff : Fell before after ↔ ∃ p ∈ snapshots before after,
    ∃ e ∈ p.1.adapter.entries, p.2.adapter.value e.1 < e.2 := by
  constructor
  · rintro ⟨p,hp,name,hlt⟩
    cases hname : p.1.adapter.get? name with
    | none =>
      rw [AdapterCounters.value_of_none hname] at hlt
      exact absurd hlt (Nat.not_lt_zero _)
    | some v =>
      have hmem := AdapterCounters.get?_iff.mp hname
      rw [AdapterCounters.value_of_mem hmem] at hlt
      exact ⟨p,hp,_,hmem,hlt⟩
  · rintro ⟨p,hp,e,he,hlt⟩
    refine ⟨p,hp,e.1,?_⟩
    rwa [AdapterCounters.value_of_mem he]

/-- The first detector sees every counter that fell. -/
theorem assertNoObjectReset_throws :
    (∃ message, assertNoObjectReset databases (some before.statuses) (some after.statuses) = .error message) ↔
      Fell before after := by
  have hdatabase : ∀ previous current : DatabaseStatus,
      (∃ message, assertNoneFallen (some previous) (some current) = .error message) ↔
        ∃ e ∈ previous.adapter.entries, current.adapter.value e.1 < e.2 := by
    intro previous current
    apply foldlM_error
    exact fun _ _ => assertNotFallen_error
  have hloop : (∃ message, assertNoObjectReset databases (some before.statuses) (some after.statuses) =
      .error message) ↔ ∃ index ∈ List.range databases.length, ∃ message,
        assertNoneFallen before.statuses[index]? after.statuses[index]? = .error message := by
    apply foldlM_error
    exact fun _ _ => Iff.rfl
  rw [hloop, fell_iff]
  constructor
  · rintro ⟨index,hindex,herror⟩
    have hlt := List.mem_range.mp hindex
    have hbefore := List.getElem?_eq_getElem (before.complete.symm ▸ hlt : index < before.statuses.length)
    have hafter := List.getElem?_eq_getElem (after.complete.symm ▸ hlt : index < after.statuses.length)
    rw [hbefore, hafter] at herror
    obtain ⟨e,he,hfell⟩ := (hdatabase _ _).mp herror
    exact ⟨(_,_),mem_snapshots.mpr ⟨index,hlt,hbefore,hafter⟩,e,he,hfell⟩
  · rintro ⟨p,hp,e,he,hfell⟩
    obtain ⟨index,hlt,hbefore,hafter⟩ := mem_snapshots.mp hp
    refine ⟨index,List.mem_range.mpr hlt,?_⟩
    rw [hbefore, hafter]
    exact (hdatabase _ _).mpr ⟨e,he,hfell⟩

theorem sum_named {entries : List (String × ℕ)} (hd : (entries.map Prod.fst).Nodup) (name : String) (g : ℕ → ℤ) :
    (entries.map (fun e => if e.1 = name then g e.2 else 0)).sum = ((entries.lookup name).map g).getD 0 := by
  induction entries with
  | nil => rfl
  | cons e entries ih =>
    obtain ⟨he,hd⟩ := List.nodup_cons.mp hd
    rw [List.map_cons, List.sum_cons, List.lookup_cons]
    by_cases hname : e.1 = name
    · have hrest : (entries.map (fun e => if e.1 = name then g e.2 else 0)).sum = 0 := by
        apply List.sum_eq_zero
        intro x hx
        obtain ⟨e',he',rfl⟩ := List.mem_map.mp hx
        refine if_neg ?_
        intro h
        rw [← hname] at h
        exact he (h ▸ List.mem_map_of_mem he')
      simp [hname, hrest]
    · have hbeq : (name == e.1) = false := beq_false_of_ne (Ne.symm hname)
      rw [if_neg hname, hbeq, zero_add, ih hd]

def added (name : String) (p : DatabaseStatus × DatabaseStatus) : ℤ :=
  ((p.2.adapter.get? name).map (fun v : ℕ => (v : ℤ) - p.1.adapter.value name)).getD 0

theorem addDelta_counter {before : DatabaseStatus} {delta delta' : Delta} {e : String × ℕ} {name : String}
    (h : addDelta (some before) delta e = .ok delta') : counter delta' name =
      counter delta name + if e.1 = name then (e.2 : ℤ) - before.adapter.value name else 0 := by
  change (if e.2 < before.adapter.value e.1 then Except.error _ else Except.ok _) = _ at h
  split_ifs at h
  cases h
  by_cases hname : e.1 = name
  · subst hname
    have hprevious : (((some before).bind fun status => status.adapter.get? e.1).getD 0 : ℕ) =
        before.adapter.value e.1 := rfl
    rw [hprevious, counter, counter, Function.update_self, if_pos rfl, Option.getD_some, add_sub_assoc]
  · rw [counter, counter, Function.update_of_ne (Ne.symm hname), if_neg hname, add_zero]

theorem adapterDelta_counter {delta : Delta} (h : adapterDelta before.statuses after.statuses = .ok delta)
    (name : String) : counter delta name = ((snapshots before after).map (added name)).sum := by
  have hdatabase : ∀ (d : Delta) (p : DatabaseStatus × DatabaseStatus) (d' : Delta),
      p.2.adapter.entries.foldlM (addDelta (some p.1)) d = .ok d' → counter d' name = counter d name + added name p := by
    intro d p d' hd
    have hsum := foldlM_sum (fun d => counter d name)
      (fun e => if e.1 = name then (e.2 : ℤ) - p.1.adapter.value name else 0) (fun _ _ _ => addDelta_counter) hd
    rw [hsum, sum_named p.2.adapter.distinct name (fun v => (v : ℤ) - p.1.adapter.value name)]
    rfl
  rw [adapterDelta_eq] at h
  have hsum := foldlM_sum (fun d => counter d name) (added name) hdatabase h
  rw [hsum]
  exact zero_add _

def Checkpoint.total (checkpoint : Checkpoint databases) (name : String) : ℤ :=
  (checkpoint.statuses.map (fun status => (status.adapter.value name : ℤ))).sum

/-- Every counter that is not zero is still there later. -/
def NoneVanished (before after : Checkpoint databases) : Prop :=
  ∀ p ∈ snapshots before after, ∀ name, 0 < p.1.adapter.value name → (p.2.adapter.get? name).isSome

/-- What the driver relies on: both detectors throw when a counter fell, and the delta
is the difference of the totals. -/
structure DetectsResets (databases : List String) (before after : Checkpoint databases) : Prop where
  delta_throws : (∃ message, adapterDelta before.statuses after.statuses = .error message) ↔ Fell before after
  assert_throws : (∃ message, assertNoObjectReset databases (some before.statuses) (some after.statuses) =
    .error message) ↔ Fell before after
  exact : ∀ delta, adapterDelta before.statuses after.statuses = .ok delta →
    ∀ name, counter delta name = after.total name - before.total name

theorem fell_of_sight (h : FellInSight before after) : Fell before after := by
  obtain ⟨p,hp,e,he,hlt⟩ := h
  refine ⟨p,hp,e.1,?_⟩
  rwa [AdapterCounters.value_of_mem he]

/-- While no counter vanished, one that fell is seen later. -/
theorem sight_of_fell (hnone : NoneVanished before after) (h : Fell before after) : FellInSight before after := by
  obtain ⟨p,hp,name,hlt⟩ := h
  have hsome := hnone p hp name (Nat.zero_lt_of_lt hlt)
  obtain ⟨v,hv⟩ := Option.isSome_iff_exists.mp hsome
  have hmem := AdapterCounters.get?_iff.mp hv
  refine ⟨p,hp,_,hmem,?_⟩
  rwa [AdapterCounters.value_of_mem hmem] at hlt

theorem fell_of_vanished (h : ¬ NoneVanished before after) : Fell before after := by
  unfold NoneVanished at h
  push Not at h
  obtain ⟨p,hp,name,hpos,hnone⟩ := h
  refine ⟨p,hp,name,?_⟩
  rwa [AdapterCounters.value_of_none (Option.not_isSome_iff_eq_none.mp hnone)]

theorem added_eq {name : String} {p : DatabaseStatus × DatabaseStatus}
    (h : 0 < p.1.adapter.value name → (p.2.adapter.get? name).isSome) :
    added name p = (p.2.adapter.value name : ℤ) - p.1.adapter.value name := by
  cases hname : p.2.adapter.get? name with
  | none =>
    have hzero : p.1.adapter.value name = 0 := by
      by_contra hne
      have hsome := h (Nat.pos_of_ne_zero hne)
      rw [hname] at hsome
      cases hsome
    rw [added, hname, hzero, AdapterCounters.value_of_none hname]
    rfl
  | some v =>
    have hvalue := AdapterCounters.value_of_mem (AdapterCounters.get?_iff.mp hname)
    rw [added, hname, hvalue]
    rfl

theorem sum_sub (f g : α → ℤ) (l : List α) :
    (l.map (fun x => f x - g x)).sum = (l.map f).sum - (l.map g).sum := by
  induction l with
  | nil => rfl
  | cons x l ih =>
    rw [List.map_cons, List.map_cons, List.map_cons, List.sum_cons, List.sum_cons, List.sum_cons, ih, add_sub_add_comm]

theorem sum_added (hnone : NoneVanished before after) (name : String) :
    ((snapshots before after).map (added name)).sum = after.total name - before.total name := by
  have hlength : before.statuses.length = after.statuses.length := before.complete.trans after.complete.symm
  have hadded : (snapshots before after).map (added name) = (snapshots before after).map
      (fun p => (p.2.adapter.value name : ℤ) - p.1.adapter.value name) := by
    apply List.map_congr_left
    exact fun p hp => added_eq (hnone p hp name)
  have hafter : (snapshots before after).map (fun p => (p.2.adapter.value name : ℤ)) =
      after.statuses.map (fun status => (status.adapter.value name : ℤ)) := by
    rw [← List.map_snd_zip hlength.ge, List.map_map]
    rfl
  have hbefore : (snapshots before after).map (fun p => (p.1.adapter.value name : ℤ)) =
      before.statuses.map (fun status => (status.adapter.value name : ℤ)) := by
    rw [← List.map_fst_zip hlength.le, List.map_map]
    rfl
  rw [hadded, Checkpoint.total, Checkpoint.total, ← hafter, ← hbefore, ← sum_sub]

/-- The second detector misses a counter that vanished, unless it throws for another. -/
theorem resets_detected_iff (databases : List String) (before after : Checkpoint databases) :
    DetectsResets databases before after ↔ FellInSight before after ∨ NoneVanished before after := by
  constructor
  · intro h
    by_contra hnot
    push Not at hnot
    have hthrows := h.delta_throws.mpr (fell_of_vanished hnot.2)
    exact hnot.1 (adapterDelta_throws.mp hthrows)
  · rintro (hsight | hnone)
    · refine ⟨?_,assertNoObjectReset_throws,?_⟩
      · rw [adapterDelta_throws]
        exact ⟨fell_of_sight,fun _ => hsight⟩
      · intro delta hdelta
        obtain ⟨message,herror⟩ := adapterDelta_throws.mpr hsight
        rw [herror] at hdelta
        cases hdelta
    · refine ⟨?_,assertNoObjectReset_throws,?_⟩
      · rw [adapterDelta_throws]
        exact ⟨fell_of_sight,sight_of_fell hnone⟩
      · intro delta hdelta name
        rw [adapterDelta_counter hdelta, sum_added hnone]

/-- A counter of the only database that a recreated instance no longer reports. -/
theorem emptied_snapshot_undetected : ¬ ∀ (databases : List String) (before after : Checkpoint databases),
    DetectsResets databases before after := by
  intro h
  let written : AdapterCounters := ⟨[("r2Puts",5)],by simp,by decide⟩
  have hdetects := h ["bench-0"] ⟨[⟨"container",true,true,4096,written,[]⟩],rfl⟩
    ⟨[⟨"container",false,false,0,AdapterCounters.empty,[]⟩],rfl⟩
  have hthrows := hdetects.delta_throws.mpr ⟨_,List.mem_singleton.mpr rfl,"r2Puts",by decide⟩
  obtain ⟨message,herror⟩ := hthrows
  cases herror

end Detectors

end SlatedbCloudflare.Benchmark
