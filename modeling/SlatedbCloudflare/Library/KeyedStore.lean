import Mathlib.Logic.Function.Basic
import Mathlib.Data.List.Basic

/-! # Maps kept in a flat store

A map with values of a type per slot is kept in a store with plain keys, each slot
under a key of its own. While the keys are distinct, writing and erasing keys of
the store is writing and erasing slots of the map.
-/
namespace SlatedbCloudflare.KeyedStore
open Function

variable {K S V : Type} {C : S → Type}

def erase [DecidableEq K] (s : K → Option V) (keys : List K) : K → Option V :=
  fun k => if k ∈ keys then none else s k

def eraseSlots [DecidableEq S] (c : ∀ x, Option (C x)) (slots : List S) : ∀ x, Option (C x) :=
  fun x => if x ∈ slots then none else c x

section
variable (key : S → K) (value : ∀ x, C x → V)

/-- Under the key of each slot the store holds its value, or nothing, and it holds
nothing else. -/
structure Represents (s : K → Option V) (c : ∀ x, Option (C x)) : Prop where
  slots : ∀ x, s (key x) = (c x).map (value x)
  keys : ∀ k, s k ≠ none → ∃ x, key x = k

variable {key value} in
/-- A store keeps no two maps. -/
theorem Represents.unique (hvalue : ∀ x, Injective (value x)) {s : K → Option V} {c c' : ∀ x, Option (C x)}
    (h : Represents key value s c) (h' : Represents key value s c') : c = c' := by
  funext x
  apply Option.map_injective (hvalue x)
  rw [← h.slots x, h'.slots x]

theorem represents_empty : Represents key value (fun _ => none) (fun _ => none) :=
  ⟨fun _ => rfl,fun _ h => absurd rfl h⟩

variable {key value} [DecidableEq K] [DecidableEq S] {s : K → Option V} {c : ∀ x, Option (C x)}

theorem Represents.set (hkey : Injective key) (h : Represents key value s c) (x : S)
    (v : Option (C x)) :
    Represents key value (update s (key x) (v.map (value x))) (update c x v) where
  slots y := by
    by_cases hy : y = x
    · subst hy
      simp
    · have hne : key y ≠ key x := fun heq => hy (hkey heq)
      rw [update_of_ne hne, update_of_ne hy]
      exact h.slots y
  keys k hk := by
    by_cases hx : k = key x
    · exact ⟨x,hx.symm⟩
    · rw [update_of_ne hx] at hk
      exact h.keys k hk

theorem Represents.erase (hkey : Injective key) (h : Represents key value s c) (slots : List S) :
    Represents key value (KeyedStore.erase s (slots.map key)) (eraseSlots c slots) where
  slots y := by
    by_cases hy : y ∈ slots
    · have hmem : key y ∈ slots.map key := List.mem_map_of_mem hy
      simp [KeyedStore.erase, eraseSlots, hy, hmem]
    · have hmem : key y ∉ slots.map key := by
        intro hin
        obtain ⟨x,hx,heq⟩ := List.mem_map.mp hin
        exact hy (hkey heq ▸ hx)
      simp only [KeyedStore.erase, eraseSlots, if_neg hmem, if_neg hy]
      exact h.slots y
  keys k hk := by
    refine h.keys k fun hnone => hk ?_
    simp [KeyedStore.erase, hnone]

end

end SlatedbCloudflare.KeyedStore
