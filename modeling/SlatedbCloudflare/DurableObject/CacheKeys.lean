import SlatedbCloudflare.Library.Framing
import SlatedbCloudflare.DurableObject.Cache

/-! # The keys of the cache

The prefix of an entry can be read off every key that starts with it: the part
size and the length of the location are numbers that end at a colon, and the
length says where the location ends.
-/
namespace SlatedbCloudflare.DoCache
open Framing ObjectStore

/-- What `DoCacheStorage::entry` is called with. -/
structure EntryId where
  location : Path
  partSize : ℕ
  positive : 0 < partSize
  deriving DecidableEq

inductive Slot
  | head
  | part (partNumber : ℕ)
  deriving DecidableEq

def EntryId.entry (e : EntryId) : DoCacheEntry := DoCache.entry e.location e.partSize

def slotKey (x : EntryId × Slot) : String :=
  match x.2 with
  | .head => x.1.entry.headKey
  | .part n => x.1.entry.partKey n

theorem entryPrefix_toList (location : Path) (partSize : ℕ) :
    (entryPrefix location partSize).toList = CACHE_PREFIX.toList ++ (Nat.toDigits 10 partSize ++
      ':' :: (Nat.toDigits 10 location.raw.utf8ByteSize ++ ':' :: (location.raw.toList ++ [':']))) := by
  simp [entryPrefix]

theorem entryPrefix_inj {location location' : Path} {partSize partSize' : ℕ} {x y : List Char}
    (h : (entryPrefix location partSize).toList ++ x = (entryPrefix location' partSize').toList ++ y) :
    location = location' ∧ partSize = partSize' ∧ x = y := by
  simp only [entryPrefix_toList, List.append_assoc, List.cons_append] at h
  have hcolon : Char.isDigit ':' = false := by decide
  obtain ⟨hsize,h₁⟩ := number_inj hcolon (List.append_cancel_left h)
  obtain ⟨hlength,h₂⟩ := number_inj hcolon h₁
  obtain ⟨hraw,h₃⟩ := sized_inj hlength h₂
  have hlocation : location = location' := by
    cases location
    cases location'
    simpa using hraw
  exact ⟨hlocation,hsize,by simpa using h₃⟩

/-- The key that an entry of this location and part size has for a slot. -/
def cacheKey (location : Path) (partSize : ℕ) : Slot → String
  | .head => (DoCache.entry location partSize).headKey
  | .part n => (DoCache.entry location partSize).partKey n

def slotText : Slot → List Char
  | .head => "head".toList
  | .part n => "part:".toList ++ Nat.toDigits 10 n

theorem cacheKey_toList (location : Path) (partSize : ℕ) (slot : Slot) :
    (cacheKey location partSize slot).toList = (entryPrefix location partSize).toList ++ slotText slot := by
  cases slot with
  | head => simp [cacheKey, slotText, DoCacheEntry.headKey, DoCache.entry]
  | part n => simp [cacheKey, slotText, DoCacheEntry.partKey, DoCache.entry]

theorem slotText_injective : Function.Injective slotText := by
  intro slot slot' h
  cases slot with
  | head =>
    cases slot' with
    | head => rfl
    | part n => simp [slotText] at h
  | part n =>
    cases slot' with
    | head => simp [slotText] at h
    | part m =>
      have hdigits := List.append_cancel_left h
      have hn : n = m := toString_injective (String.toList_inj.mp (by simpa using hdigits))
      rw [hn]

theorem cacheKey_inj {location location' : Path} {partSize partSize' : ℕ} {slot slot' : Slot}
    (h : cacheKey location partSize slot = cacheKey location' partSize' slot') :
    location = location' ∧ partSize = partSize' ∧ slot = slot' := by
  have hlist := congrArg String.toList h
  rw [cacheKey_toList, cacheKey_toList] at hlist
  obtain ⟨hlocation,hsize,hslot⟩ := entryPrefix_inj hlist
  exact ⟨hlocation,hsize,slotText_injective hslot⟩

theorem entryPrefix_key {location location' : Path} {partSize partSize' : ℕ} {slot : Slot}
    (h : (entryPrefix location partSize).toList <+: (cacheKey location' partSize' slot).toList) :
    location = location' ∧ partSize = partSize' := by
  obtain ⟨rest,hrest⟩ := h
  rw [cacheKey_toList] at hrest
  obtain ⟨hlocation,hsize,_⟩ := entryPrefix_inj hrest
  exact ⟨hlocation,hsize⟩

theorem cachePrefix_key (location : Path) (partSize : ℕ) (slot : Slot) :
    CACHE_PREFIX.toList <+: (cacheKey location partSize slot).toList := by
  rw [cacheKey_toList, entryPrefix_toList, List.append_assoc]
  exact List.prefix_append _ _

theorem slotKey_eq (x : EntryId × Slot) : slotKey x = cacheKey x.1.location x.1.partSize x.2 := by
  obtain ⟨e,slot⟩ := x
  cases slot with
  | head => rfl
  | part n => rfl

theorem slotKey_injective : Function.Injective slotKey := by
  rintro ⟨e,slot⟩ ⟨e',slot'⟩ h
  rw [slotKey_eq, slotKey_eq] at h
  obtain ⟨hlocation,hsize,rfl⟩ := cacheKey_inj h
  have he : e = e' := by
    cases e
    cases e'
    simp_all
  rw [he]

/-- The keys of the cache tell locations, part sizes and slots apart, an entry's prefix is on
its own keys only, and what `isPopulated` lists is on all of them. -/
theorem cache_keys_decodable (L : LocalCacheHead) :
    (∀ location partSize slot location' partSize' slot',
      cacheKey location partSize slot = cacheKey location' partSize' slot' →
        location = location' ∧ partSize = partSize' ∧ slot = slot') ∧
    (∀ location partSize location' partSize' slot',
      (entryPrefix location partSize).toList <+: (cacheKey location' partSize' slot').toList →
        location = location' ∧ partSize = partSize') ∧
    (isPopulated (L := L)).Asks (fun r => ∃ keyPrefix limit, r = .list keyPrefix limit ∧
      ∀ location partSize slot, keyPrefix.toList <+: (cacheKey location partSize slot).toList) := by
  refine ⟨fun _ _ _ _ _ _ => cacheKey_inj,fun _ _ _ _ _ => entryPrefix_key,?_⟩
  refine ⟨⟨CACHE_PREFIX,1,rfl,cachePrefix_key⟩,fun x => ?_⟩
  cases x with
  | error e => trivial
  | ok entries => trivial

end SlatedbCloudflare.DoCache
