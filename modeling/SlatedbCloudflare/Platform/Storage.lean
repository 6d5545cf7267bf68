import SlatedbCloudflare.Platform.ObjectStore
import SlatedbCloudflare.Library.KeyedStore

/-! # Durable Object storage

A string-keyed map whose calls take full effect or fail without any. Values are
byte arrays and the serialized heads of the cache, of a type `H`.
-/
namespace SlatedbCloudflare.Storage
open ObjectStore KeyedStore

inductive Value (H : Type)
  | bytes (b : Bytes)
  | head (h : H)

/-- Reading deserializes the value as bytes or as a head. -/
inductive Request (H : Type)
  | put (key : String) (value : Value H)
  | getBytes (key : String)
  | getHead (key : String)
  | delete (key : String)
  | deleteMultiple (keys : List String)
  | deleteAll
  | list (keyPrefix : String) (limit : ℕ)

variable {H : Type}

/-- What a successful call returns; of a listing the caller uses the size only. -/
abbrev Returned : Request H → Type
  | .put _ _ => Unit
  | .getBytes _ => Option Bytes
  | .getHead _ => Option H
  | .delete _ => Bool
  | .deleteMultiple _ => ℕ
  | .deleteAll => Unit
  | .list _ _ => ℕ

abbrev Reply (r : Request H) := Except String (Returned r)

abbrev State (H : Type) := String → Option (Value H)

def Does (s : State H) : (r : Request H) → Returned r → State H → Prop
  | .put key value, _, t => t = Function.update s key (some value)
  | .getBytes key, v, t => t = s ∧ s key = v.map .bytes
  | .getHead key, v, t => t = s ∧ s key = v.map .head
  | .delete key, v, t => v = (s key).isSome ∧ t = Function.update s key none
  | .deleteMultiple keys, v, t => v = keys.countP (fun key => (s key).isSome) ∧ t = erase s keys
  | .deleteAll, _, t => t = fun _ => none
  | .list keyPrefix limit, v, t => t = s ∧ ∃ found : List String, found.Nodup ∧ found.length = v ∧
      v ≤ limit ∧ (∀ key ∈ found, (s key).isSome ∧ keyPrefix.toList <+: key.toList) ∧
      (v < limit → ∀ key, (s key).isSome → keyPrefix.toList <+: key.toList → key ∈ found)

inductive Serve : State H → (r : Request H) → Reply r → State H → Prop
  | served {s : State H} {r : Request H} {v : Returned r} {t : State H} (h : Does s r v t) :
      Serve s r (.ok v) t
  | failed (s : State H) (r : Request H) (e : String) : Serve s r (.error e) s

theorem Serve.does {s t : State H} {r : Request H} {v : Returned r} (h : Serve s r (.ok v) t) :
    Does s r v t := by
  cases h with
  | served h => exact h

theorem Serve.failed_eq {s t : State H} {r : Request H} {e : String} (h : Serve s r (.error e) t) :
    t = s := by
  cases h with
  | failed => rfl

theorem Serve.unique {s t t' : State H} {r : Request H} {x : Reply r} (h : Serve s r x t) (h' : Serve s r x t') :
    t = t' := by
  cases x with
  | error e => rw [h.failed_eq, h'.failed_eq]
  | ok v =>
    have hdoes := h.does
    have hdoes' := h'.does
    cases r with
    | put key value => exact hdoes.trans hdoes'.symm
    | getBytes key => exact hdoes.1.trans hdoes'.1.symm
    | getHead key => exact hdoes.1.trans hdoes'.1.symm
    | delete key => exact hdoes.2.trans hdoes'.2.symm
    | deleteMultiple keys => exact hdoes.2.trans hdoes'.2.symm
    | deleteAll => exact hdoes.trans hdoes'.symm
    | list keyPrefix limit => exact hdoes.1.trans hdoes'.1.symm

end SlatedbCloudflare.Storage
