import SlatedbCloudflare.DurableObject.CacheRuns

/-! # The cache refines a map

What the cache is for: a map from an entry and a slot, the head or a part number,
to the value saved there last. Every run of the cache is a run of this map, and
the storage holds the map under the keys of its slots.
-/
namespace SlatedbCloudflare.DoCache
open Programs Traversals KeyedStore ObjectStore Storage

abbrev Content (L : LocalCacheHead) (x : EntryId × Slot) : Type :=
  match x.2 with
  | .head => L.Head
  | .part _ => Bytes

def toValue {L : LocalCacheHead} : (x : EntryId × Slot) → Content L x → Storage.Value L.Head
  | (_,.head), h => .head h
  | (_,.part _), b => .bytes b

abbrev Cache (L : LocalCacheHead) := (x : EntryId × Slot) → Option (Content L x)

variable {L : LocalCacheHead}

abbrev Holds (s : Storage.State L.Head) (c : Cache L) : Prop := Represents slotKey toValue s c

namespace Cache

def head (c : Cache L) (e : EntryId) : Option L.Head := c (e,.head)
def part (c : Cache L) (e : EntryId) (n : ℕ) : Option Bytes := c (e,.part n)

def setHead (c : Cache L) (e : EntryId) (h : L.Head) : Cache L := Function.update c (e,.head) (some h)
def setPart (c : Cache L) (e : EntryId) (n : ℕ) (b : Bytes) : Cache L :=
  Function.update c (e,.part n) (some b)

/-- The slots that belong to an object of the given head: the head itself, and each
part that begins within the object. -/
def Covers (e : EntryId) (head : Option L.Head) : Slot → Prop
  | .head => True
  | .part n => ∃ h, head = some h ∧ n * e.partSize < (L.metadata h).size

/-- A deletion removes covered slots of the entry, all of them if nothing failed. -/
structure Deletes (c : Cache L) (e : EntryId) (complete : Prop) (c' : Cache L) : Prop where
  nothing_else : ∀ x, c' x = c x ∨ (x.1 = e ∧ Covers e (c.head e) x.2 ∧ c' x = none)
  removes : complete → ∀ slot, Covers e (c.head e) slot → c' (e,slot) = none

/-- One call on the map, told by whether its storage calls succeeded. -/
def Step (c : Cache L) : Performed L → Cache L → Prop
  | ⟨.savePart e n bytes,tr,_,r⟩, c' =>
    (Succeeded tr ∧ r = .ok () ∧ c' = c.setPart e n bytes) ∨
      (¬ Succeeded tr ∧ (∃ error, r = .error error) ∧ c' = c)
  | ⟨.readPart e n range,tr,_,r⟩, c' => c' = c ∧
    ((Succeeded tr ∧ r = readSlice (c.part e n) range) ∨
      (¬ Succeeded tr ∧ ∃ error, r = .error error))
  | ⟨.saveHead e m attributes,tr,_,r⟩, c' =>
    (Succeeded tr ∧ r = .ok () ∧ c' = c.setHead e (L.ofMeta m attributes)) ∨
      (¬ Succeeded tr ∧ (∃ error, r = .error error) ∧ c' = c)
  | ⟨.readHead e,tr,_,r⟩, c' => c' = c ∧
    ((Succeeded tr ∧ r = .ok (readStored (c.head e))) ∨
      (¬ Succeeded tr ∧ ∃ error, r = .error error))
  | ⟨.delete e,tr,_,r⟩, c' => r = .ok () ∧ c.Deletes e (Succeeded tr) c'
  | ⟨.clear,tr,_,r⟩, c' =>
    (Succeeded tr ∧ r = .ok () ∧ c' = fun _ => none) ∨
      (¬ Succeeded tr ∧ (∃ error, r = .error error) ∧ c' = c)
  | ⟨.isPopulated,tr,_,r⟩, c' => c' = c ∧
    ((Succeeded tr ∧ ∃ b, r = .ok b ∧ (b = true ↔ ∃ x, c x ≠ none)) ∨
      (¬ Succeeded tr ∧ ∃ error, r = .error error))

inductive Steps : List (Performed L) → Cache L → Prop
  | nil : Steps [] (fun _ => none)
  | snoc {log : List (Performed L)} {c c' : Cache L} (h : Steps log c) (p : Performed L)
      (hp : c.Step p c') : Steps (log ++ [p]) c'

end Cache

/-- Saved heads are of objects whose part count is a `usize`. -/
def CountsFit (usizeBits : ℕ) (log : List (Performed L)) : Prop :=
  ∀ p ∈ log, ∀ e m attributes, p.call = .saveHead e m attributes →
    divCeil m.size e.partSize < 2 ^ usizeBits

theorem lt_divCeil {a b n : ℕ} (hb : 0 < b) : n < divCeil a b ↔ n * b < a := by
  have hdiv := Nat.div_add_mod a b
  have hmod := Nat.mod_lt a hb
  unfold divCeil
  split
  next h =>
    rw [h, Nat.add_zero] at hdiv
    constructor
    · intro hn
      calc n * b < a / b * b := Nat.mul_lt_mul_of_pos_right hn hb
        _ = a := by rw [Nat.mul_comm]; exact hdiv
    · intro hn
      rw [← hdiv, Nat.mul_comm b] at hn
      exact Nat.lt_of_mul_lt_mul_right hn
  next h =>
    have hsucc : (n < a / b + 1) ↔ n ≤ a / b := Nat.lt_succ_iff
    rw [hsucc, Nat.le_div_iff_mul_le hb]
    constructor
    · intro hn
      refine Nat.lt_of_le_of_ne hn fun heq => h ?_
      rw [← heq]
      exact Nat.mul_mod_left n b
    · exact Nat.le_of_lt

section Simulation
variable {usizeBits : ℕ} {s t : Storage.State L.Head} {c : Cache L} {e : EntryId} {tr : Replies L}

/-- Deleting lists of keys of slots erases the slots of the deletions that succeed. -/
theorem holds_deleteChunks (slots : List (List (EntryId × Slot))) (h : Holds s c)
    (htr : tr.map Sigma.fst = slots.map (fun l => .deleteMultiple (l.map slotKey)))
    (hc : Chain Serve s tr t) : ∃ c' : Cache L, Holds t c' ∧
      (∀ x, (∃ i l, slots[i]? = some l ∧ x ∈ l ∧ Answered tr i) → c' x = none) ∧
      (∀ x, ¬ (∃ i l, slots[i]? = some l ∧ x ∈ l ∧ Answered tr i) → c' x = c x) := by
  induction slots generalizing s c tr with
  | nil =>
    rw [List.map_nil, List.map_eq_nil_iff] at htr
    subst htr
    rw [hc.of_nil]
    exact ⟨c,h,fun x hx => (by simp at hx),fun x _ => rfl⟩
  | cons l slots ih =>
    rw [List.map_cons] at htr
    obtain ⟨⟨r,y⟩,tr',rfl,rfl,htr'⟩ := List.map_eq_cons_iff.mp htr
    obtain ⟨u,hserve,hrest⟩ := hc.of_cons
    have hnext : ∃ d : Cache L, Holds u d ∧ (∀ x, (∃ v, y = .ok v) ∧ x ∈ l → d x = none) ∧
        (∀ x, ¬ ((∃ v, y = .ok v) ∧ x ∈ l) → d x = c x) := by
      rcases y with error | v
      · rw [hserve.failed_eq]
        exact ⟨c,h,fun x hx => (by simp at hx),fun x _ => rfl⟩
      · obtain ⟨_,rfl⟩ := hserve.does
        exact ⟨eraseSlots c l,h.erase slotKey_injective l,fun x hx => if_pos hx.2,
          fun x hx => if_neg fun hmem => hx ⟨⟨v,rfl⟩,hmem⟩⟩
    obtain ⟨d,hd,hgone,hkept⟩ := hnext
    obtain ⟨c',hc',hgone',hkept'⟩ := ih hd htr' hrest
    have hsplit : ∀ x, (∃ i l', (l :: slots)[i]? = some l' ∧ x ∈ l' ∧
          Answered (⟨.deleteMultiple (l.map slotKey),y⟩ :: tr') i) ↔
        ((∃ v, y = .ok v) ∧ x ∈ l) ∨ ∃ i l', slots[i]? = some l' ∧ x ∈ l' ∧ Answered tr' i := by
      intro x
      constructor
      · rintro ⟨i,l',hl',hx,hi⟩
        cases i with
        | zero =>
          cases hl'
          exact .inl ⟨answered_zero.mp hi,hx⟩
        | succ i => exact .inr ⟨i,l',hl',hx,answered_succ.mp hi⟩
      · rintro (⟨hy,hx⟩ | ⟨i,l',hl',hx,hi⟩)
        · exact ⟨0,l,rfl,hx,answered_zero.mpr hy⟩
        · exact ⟨i + 1,l',hl',hx,answered_succ.mpr hi⟩
    refine ⟨c',hc',fun x hx => ?_,fun x hx => ?_⟩
    · by_cases hlater : ∃ i l', slots[i]? = some l' ∧ x ∈ l' ∧ Answered tr' i
      · exact hgone' x hlater
      · rcases (hsplit x).mp hx with hfirst | hlater'
        · exact (hkept' x hlater).trans (hgone x hfirst)
        · exact absurd hlater' hlater
    · rw [hsplit, not_or] at hx
      exact (hkept' x hx.2).trans (hkept x hx.1)

theorem holds_getHead {x : Storage.Reply (.getHead e.entry.headKey)} (h : Holds s c)
    (hs : Serve s (.getHead e.entry.headKey) x t) : t = s ∧ ∀ v, x = .ok v → v = c.head e := by
  rcases x with error | v
  · exact ⟨hs.failed_eq,fun v hv => (by cases hv)⟩
  · obtain ⟨rfl,hv⟩ := hs.does
    refine ⟨rfl,fun w hw => ?_⟩
    cases hw
    have hslot : t e.entry.headKey = (c.head e).map Value.head := h.slots (e,.head)
    rw [hslot] at hv
    cases v <;> cases hc : c.head e <;> simp_all

theorem holds_getBytes {n : ℕ} {x : Storage.Reply (.getBytes (e.entry.partKey n))} (h : Holds s c)
    (hs : Serve s (.getBytes (e.entry.partKey n)) x t) : t = s ∧ ∀ v, x = .ok v → v = c.part e n := by
  rcases x with error | v
  · exact ⟨hs.failed_eq,fun v hv => (by cases hv)⟩
  · obtain ⟨rfl,hv⟩ := hs.does
    refine ⟨rfl,fun w hw => ?_⟩
    cases hw
    have hslot : t (e.entry.partKey n) = (c.part e n).map Value.bytes := h.slots (e,.part n)
    rw [hslot] at hv
    cases v <;> cases hc : c.part e n <;> simp_all

def seenSlots (usizeBits : ℕ) (e : EntryId) (head : Option L.Head) : List (EntryId × Slot) :=
  match head with
  | some h => (List.range (partCount usizeBits (L.metadata h).size e.partSize)).map (fun n => (e,.part n))
  | none => []

theorem seenParts_eq (usizeBits : ℕ) (e : EntryId) (head : Option L.Head) :
    seenParts usizeBits e.entry head = (seenSlots usizeBits e head).map slotKey := by
  cases head with
  | none => rfl
  | some h => simp [seenParts, seenSlots, partKeys, slotKey, Function.comp_def, EntryId.entry, DoCache.entry]

theorem getElem?_seenSlots {head : Option L.Head} {n : ℕ} {x : EntryId × Slot} :
    (seenSlots usizeBits e head)[n]? = some x ↔ ∃ h, head = some h ∧
      n < partCount usizeBits (L.metadata h).size e.partSize ∧ x = (e,.part n) := by
  cases head with
  | none => simp [seenSlots]
  | some h =>
    simp only [seenSlots, List.getElem?_map, Option.map_eq_some_iff, Option.some.injEq,
      exists_eq_left', List.getElem?_eq_some_iff, List.getElem_range, List.length_range]
    constructor
    · rintro ⟨_,⟨hn,rfl⟩,rfl⟩
      exact ⟨hn,rfl⟩
    · rintro ⟨hn,rfl⟩
      exact ⟨n,⟨hn,rfl⟩,rfl⟩

theorem mem_seenChunks {head : Option L.Head} {z : EntryId × Slot} :
    (∃ i l, (chunks 128 (seenSlots usizeBits e head))[i]? = some l ∧ z ∈ l ∧ Answered tr i) ↔
      ∃ n h, z = (e,.part n) ∧ head = some h ∧
        n < partCount usizeBits (L.metadata h).size e.partSize ∧ Answered tr (n / 128) := by
  have hpos : ∀ i, (∃ l, (chunks 128 (seenSlots usizeBits e head))[i]? = some l ∧ z ∈ l) ↔
      ∃ n, (seenSlots usizeBits e head)[n]? = some z ∧ n / 128 = i := fun i => mem_chunks (by decide)
  constructor
  · rintro ⟨i,l,hl,hz,hi⟩
    obtain ⟨n,hn,rfl⟩ := (hpos i).mp ⟨l,hl,hz⟩
    obtain ⟨h,hh,hlt,rfl⟩ := getElem?_seenSlots.mp hn
    exact ⟨n,h,rfl,hh,hlt,hi⟩
  · rintro ⟨n,h,rfl,hh,hlt,hi⟩
    obtain ⟨l,hl,hz⟩ := (hpos (n / 128)).mpr ⟨n,getElem?_seenSlots.mpr ⟨h,hh,hlt,rfl⟩,rfl⟩
    exact ⟨_,l,hl,hz,hi⟩

theorem holds_deleteHead {y : Storage.Reply (.delete e.entry.headKey)} (h : Holds s c)
    (hs : Serve s (.delete e.entry.headKey) y t) : ∃ d : Cache L, Holds t d ∧
      ((∃ b, y = .ok b) → d (e,.head) = none) ∧ ∀ z, ¬ (z = (e,.head) ∧ ∃ b, y = .ok b) → d z = c z := by
  rcases y with error | b
  · rw [hs.failed_eq]
    exact ⟨c,h,fun hb => (by simp at hb),fun z _ => rfl⟩
  · obtain ⟨_,rfl⟩ := hs.does
    refine ⟨Function.update c (e,.head) none,h.set slotKey_injective (e,.head) none,
      fun _ => Function.update_self _ _ _,fun z hz => ?_⟩
    exact Function.update_of_ne (fun heq => hz ⟨heq,b,rfl⟩) _ _

/-- The slots that a `delete` removes: the head if its deletion succeeds, and each
part whose chunk is asked for and deleted. -/
def Removed (usizeBits : ℕ) (e : EntryId) (seen : Option L.Head) (tr : Replies L) : Slot → Prop
  | .head => Answered tr 1
  | .part n => (∃ h, seen = some h ∧ n < partCount usizeBits (L.metadata h).size e.partSize) ∧
      Answered tr (2 + n / 128)

/-- What one `delete` does to the map, in terms of the head that it saw. -/
theorem holds_delete {r : Except Error Unit} {os : List Perf.Increment} (h : Holds s c)
    (hr : Returns (delete usizeBits e.entry) tr os r) (hc : Chain Serve s tr t) :
    r = .ok () ∧ ∃ (seen : Option L.Head) (c' : Cache L), Holds t c' ∧
      (Answered tr 0 → seen = c.head e) ∧ (¬ Answered tr 0 → seen = none) ∧
      (∀ slot, Removed usizeBits e seen tr slot → c' (e,slot) = none) ∧
      (∀ x, ¬ (x.1 = e ∧ Removed usizeBits e seen tr x.2) → c' x = c x) ∧
      (Succeeded tr → Answered tr 0 ∧ Answered tr 1 ∧ ∀ h, seen = some h →
        ∀ n < partCount usizeBits (L.metadata h).size e.partSize, Answered tr (2 + n / 128)) := by
  obtain ⟨rfl,x,y,tr',rfl,htr⟩ := delete_returns hr
  obtain ⟨u,hread,hc₁⟩ := hc.of_cons
  obtain ⟨v,hdelete,hc₂⟩ := hc₁.of_cons
  obtain ⟨rfl,hseen⟩ := holds_getHead h hread
  have hhead : Answered ((⟨.getHead e.entry.headKey,x⟩ : (r : Storage.Request L.Head) × Storage.Reply r) ::
      ⟨.delete e.entry.headKey,y⟩ :: tr') 1 ↔ ∃ b, y = .ok b := answered_succ.trans answered_zero
  obtain ⟨d,hd,hgone,hkept⟩ := holds_deleteHead h hdelete
  rw [seenParts_eq, chunks_map, List.map_map] at htr
  obtain ⟨c',hc',hgone',hkept'⟩ := holds_deleteChunks _ hd htr hc₂
  have hshift : ∀ n, Answered ((⟨.getHead e.entry.headKey,x⟩ :
      (r : Storage.Request L.Head) × Storage.Reply r) :: ⟨.delete e.entry.headKey,y⟩ :: tr') (2 + n) ↔
        Answered tr' n := by
    intro n
    rw [Nat.add_comm]
    exact Iff.rfl
  refine ⟨rfl,seenHead x,c',hc',?_,?_,fun slot hslot => ?_,fun z hz => ?_,fun hs => ?_⟩
  · intro hread
    obtain ⟨w,rfl⟩ := answered_zero.mp hread
    exact hseen w rfl
  · intro hfailed
    rcases x with error | head
    · rfl
    · exact absurd (answered_zero.mpr ⟨head,rfl⟩) hfailed
  · cases slot with
    | head =>
      have hother : c' (e,.head) = d (e,.head) := by
        refine hkept' _ fun hin => ?_
        obtain ⟨n,h,heq,_⟩ := mem_seenChunks.mp hin
        cases heq
      exact hother.trans (hgone (hhead.mp hslot))
    | part n =>
      obtain ⟨⟨h,hh,hlt⟩,hanswered⟩ := hslot
      exact hgone' _ (mem_seenChunks.mpr ⟨n,h,rfl,hh,hlt,(hshift _).mp hanswered⟩)
  · have hparts : c' z = d z := by
      refine hkept' _ fun hin => ?_
      obtain ⟨n,h,rfl,hh,hlt,hanswered⟩ := mem_seenChunks.mp hin
      exact hz ⟨rfl,⟨h,hh,hlt⟩,(hshift _).mpr hanswered⟩
    refine hparts.trans (hkept z ?_)
    rintro ⟨rfl,hb⟩
    exact hz ⟨rfl,hhead.mpr hb⟩
  · refine ⟨hs.answered (by simp),hs.answered (by simp),fun h hh n hn => ?_⟩
    have hlength : tr'.length = (chunks 128 (seenSlots usizeBits e (seenHead x))).length := by
      simpa using congrArg List.length htr
    obtain ⟨l,hl,_⟩ := (mem_chunks (n := 128) (by decide)).mpr
      ⟨n,getElem?_seenSlots.mpr ⟨h,hh,hn,rfl⟩,rfl⟩
    have hlt := (List.getElem?_eq_some_iff.mp hl).1
    refine hs.answered ?_
    rw [List.length_cons, List.length_cons, hlength]
    omega

/-- The stored heads are of objects whose part count is a `usize`. -/
def HeadsFit (usizeBits : ℕ) (c : Cache L) : Prop :=
  ∀ e h, c.head e = some h → divCeil (L.metadata h).size e.partSize < 2 ^ usizeBits

theorem HeadsFit.lt_partCount (hfit : HeadsFit usizeBits c) {h : L.Head} (hh : c.head e = some h)
    {n : ℕ} : n < partCount usizeBits (L.metadata h).size e.partSize ↔
      n * e.partSize < (L.metadata h).size := by
  rw [partCount, Nat.mod_eq_of_lt (hfit e h hh)]
  exact lt_divCeil e.positive

theorem deletes_of_run {r : Except Error Unit} {os : List Perf.Increment} (h : Holds s c)
    (hfit : HeadsFit usizeBits c) (hr : Returns (delete usizeBits e.entry) tr os r)
    (hc : Chain Serve s tr t) :
    r = .ok () ∧ ∃ c' : Cache L, c.Deletes e (Succeeded tr) c' ∧ Holds t c' := by
  obtain ⟨hok,seen,c',hc',hread,hunread,hgone,hkept,hall⟩ := holds_delete h hr hc
  refine ⟨hok,c',⟨fun x => ?_,fun hs slot hcovers => hgone slot ?_⟩,hc'⟩
  · by_cases hx : x.1 = e ∧ Removed usizeBits e seen tr x.2
    · obtain ⟨e',slot⟩ := x
      obtain ⟨rfl,hremoved⟩ := hx
      refine .inr ⟨rfl,?_,hgone slot hremoved⟩
      cases slot with
      | head => trivial
      | part n =>
        obtain ⟨⟨head,rfl,hlt⟩,_⟩ := hremoved
        have hread' : some head = c.head e' := by
          by_cases ha : Answered tr 0
          · exact hread ha
          · cases hunread ha
        exact ⟨head,hread'.symm,(hfit.lt_partCount hread'.symm).mp hlt⟩
    · exact .inl (hkept x hx)
  · obtain ⟨hfirst,hsecond,hchunks⟩ := hall hs
    have hseen := hread hfirst
    cases slot with
    | head => exact hsecond
    | part n =>
      obtain ⟨head,hhead,hcovers⟩ := hcovers
      have hlt := (hfit.lt_partCount hhead).mpr hcovers
      exact ⟨⟨head,hseen.trans hhead,hlt⟩,hchunks head (hseen.trans hhead) n hlt⟩

theorem holds_list {entries : ℕ} (h : Holds s c) (hd : Does s (.list CACHE_PREFIX 1) entries t) :
    t = s ∧ (entries ≠ 0 ↔ ∃ x, c x ≠ none) := by
  obtain ⟨rfl,found,_,hlength,hlimit,hfound,hall⟩ := hd
  refine ⟨rfl,?_,?_⟩
  · intro hne
    have hpos : 0 < found.length := by omega
    obtain ⟨k,hk⟩ := List.exists_mem_of_length_pos hpos
    have hsome := (hfound k hk).1
    obtain ⟨x,rfl⟩ := h.keys k (fun hnone => by rw [hnone] at hsome; cases hsome)
    refine ⟨x,fun hnone => ?_⟩
    rw [h.slots x, hnone] at hsome
    cases hsome
  · rintro ⟨x,hx⟩ hzero
    have hsome : (t (slotKey x)).isSome = true := by
      rw [h.slots x]
      cases hv : c x with
      | none => exact absurd hv hx
      | some v => rfl
    have hprefix : CACHE_PREFIX.toList <+: (slotKey x).toList := by
      rw [slotKey_eq]
      exact cachePrefix_key _ _ _
    have hfew : entries < 1 := by omega
    have hmem := hall hfew _ hsome hprefix
    have hpos := List.length_pos_of_mem hmem
    omega

theorem step_of_call {p : Performed L} (hp : ∀ e, p.call ≠ .delete e) (h : Holds s c)
    (hr : Returns (p.call.prog usizeBits) p.replies p.outputs p.outcome)
    (hc : Chain Serve s p.replies t) : ∃ c', c.Step p c' ∧ Holds t c' := by
  obtain ⟨call,tr,os,r⟩ := p
  cases call with
  | savePart e n bytes =>
    rcases savePart_returns hr with ⟨rfl,rfl⟩ | ⟨error,rfl,rfl⟩
    · have hput := hc.of_one
      have hset : Holds t (c.setPart e n bytes) := by
        rw [show t = _ from hput.does]
        exact h.set slotKey_injective (e,.part n) (some bytes)
      exact ⟨_,.inl ⟨succeeded_ok,rfl,rfl⟩,hset⟩
    · rw [hc.of_one.failed_eq]
      exact ⟨c,.inr ⟨not_succeeded,⟨_,rfl⟩,rfl⟩,h⟩
  | readPart e n range =>
    rcases readPart_returns hr with ⟨v,rfl,rfl⟩ | ⟨error,rfl,rfl⟩
    · have hget := hc.of_one
      obtain ⟨rfl,hv⟩ := holds_getBytes h hget
      exact ⟨c,⟨rfl,.inl ⟨succeeded_ok,by rw [hv v rfl]⟩⟩,h⟩
    · rw [hc.of_one.failed_eq]
      exact ⟨c,⟨rfl,.inr ⟨not_succeeded,_,rfl⟩⟩,h⟩
  | saveHead e m attributes =>
    rcases saveHead_returns hr with ⟨rfl,rfl⟩ | ⟨error,rfl,rfl⟩
    · have hput := hc.of_one
      have hset : Holds t (c.setHead e (L.ofMeta m attributes)) := by
        rw [show t = _ from hput.does]
        exact h.set slotKey_injective (e,.head) (some (L.ofMeta m attributes))
      exact ⟨_,.inl ⟨succeeded_ok,rfl,rfl⟩,hset⟩
    · rw [hc.of_one.failed_eq]
      exact ⟨c,.inr ⟨not_succeeded,⟨_,rfl⟩,rfl⟩,h⟩
  | readHead e =>
    rcases readHead_returns hr with ⟨v,rfl,rfl⟩ | ⟨error,rfl,rfl⟩
    · have hget := hc.of_one
      obtain ⟨rfl,hv⟩ := holds_getHead h hget
      exact ⟨c,⟨rfl,.inl ⟨succeeded_ok,by rw [hv v rfl]⟩⟩,h⟩
    · rw [hc.of_one.failed_eq]
      exact ⟨c,⟨rfl,.inr ⟨not_succeeded,_,rfl⟩⟩,h⟩
  | delete e => exact absurd rfl (hp e)
  | clear =>
    have htr : tr = [⟨.deleteAll,r⟩] := clear_returns hr
    subst htr
    have hdelete := hc.of_one
    rcases r with error | _
    · rw [hdelete.failed_eq]
      exact ⟨c,.inr ⟨not_succeeded,⟨_,rfl⟩,rfl⟩,h⟩
    · rw [show t = _ from hdelete.does]
      exact ⟨_,.inl ⟨succeeded_ok,rfl,rfl⟩,represents_empty _ _⟩
  | isPopulated =>
    rcases isPopulated_returns hr with ⟨entries,rfl,rfl⟩ | ⟨error,rfl,rfl⟩
    · have hlist := hc.of_one
      obtain ⟨rfl,hentries⟩ := holds_list h hlist.does
      exact ⟨c,⟨rfl,.inl ⟨succeeded_ok,_,rfl,by rw [decide_eq_true_iff, hentries]⟩⟩,h⟩
    · rw [hc.of_one.failed_eq]
      exact ⟨c,⟨rfl,.inr ⟨not_succeeded,_,rfl⟩⟩,h⟩

/-- One call of the cache is one call on the map. -/
theorem step_of_performed {p : Performed L} (h : Holds s c) (hfit : HeadsFit usizeBits c)
    (hr : Returns (p.call.prog usizeBits) p.replies p.outputs p.outcome)
    (hc : Chain Serve s p.replies t) : ∃ c', c.Step p c' ∧ Holds t c' := by
  by_cases hdelete : ∃ e, p.call = .delete e
  · obtain ⟨call,tr,os,r⟩ := p
    obtain ⟨e,rfl⟩ := hdelete
    obtain ⟨hok,c',hstep,hc'⟩ := deletes_of_run h hfit hr hc
    exact ⟨c',⟨hok,hstep⟩,hc'⟩
  · exact step_of_call (fun e he => hdelete ⟨e,he⟩) h hr hc

end Simulation

inductive Saves : Performed L → (x : EntryId × Slot) → Content L x → Prop
  | part (e : EntryId) (n : ℕ) (bytes : Bytes) (tr : Replies L) (os : List Perf.Increment) :
      Saves ⟨.savePart e n bytes,tr,os,.ok ()⟩ (e,.part n) bytes
  | head (e : EntryId) (m : ObjectMeta) (attributes : L.Attributes) (tr : Replies L)
      (os : List Perf.Increment) :
      Saves ⟨.saveHead e m attributes,tr,os,.ok ()⟩ (e,.head) (L.ofMeta m attributes)

/-- The value was saved in the slot, and no other one since. -/
def LastSaved (log : List (Performed L)) (x : EntryId × Slot) (v : Content L x) : Prop :=
  ∃ pre p post, log = pre ++ p :: post ∧ Saves p x v ∧ ∀ q ∈ post, ∀ w, ¬ Saves q x w

namespace Cache
variable {c c' : Cache L} {p : Performed L} {x : EntryId × Slot}

/-- A call saves in a slot, or leaves it as it is or empty. -/
theorem Step.slot (h : c.Step p c') (x : EntryId × Slot) :
    (∃ v, Saves p x v ∧ c' x = some v) ∨
      ((∀ v, ¬ Saves p x v) ∧ (c' x = c x ∨ c' x = none)) := by
  obtain ⟨call,tr,os,r⟩ := p
  cases call with
  | savePart e n bytes =>
    rcases h with ⟨_,rfl,rfl⟩ | ⟨_,⟨error,rfl⟩,rfl⟩
    · by_cases hx : x = (e,.part n)
      · subst hx
        exact .inl ⟨bytes,.part e n bytes tr os,Function.update_self _ _ _⟩
      · refine .inr ⟨fun v hv => ?_,.inl (Function.update_of_ne hx _ _)⟩
        cases hv
        exact hx rfl
    · exact .inr ⟨fun v hv => (by cases hv),.inl rfl⟩
  | saveHead e m attributes =>
    rcases h with ⟨_,rfl,rfl⟩ | ⟨_,⟨error,rfl⟩,rfl⟩
    · by_cases hx : x = (e,.head)
      · subst hx
        exact .inl ⟨_,.head e m attributes tr os,Function.update_self _ _ _⟩
      · refine .inr ⟨fun v hv => ?_,.inl (Function.update_of_ne hx _ _)⟩
        cases hv
        exact hx rfl
    · exact .inr ⟨fun v hv => (by cases hv),.inl rfl⟩
  | readPart e n range =>
    rw [h.1]
    exact .inr ⟨fun v hv => (by cases hv),.inl rfl⟩
  | readHead e =>
    rw [h.1]
    exact .inr ⟨fun v hv => (by cases hv),.inl rfl⟩
  | isPopulated =>
    rw [h.1]
    exact .inr ⟨fun v hv => (by cases hv),.inl rfl⟩
  | delete e =>
    refine .inr ⟨fun v hv => (by cases hv),?_⟩
    rcases h.2.nothing_else x with heq | ⟨_,_,hnone⟩
    · exact .inl heq
    · exact .inr hnone
  | clear =>
    refine .inr ⟨fun v hv => (by cases hv),?_⟩
    rcases h with ⟨_,_,rfl⟩ | ⟨_,_,rfl⟩
    · exact .inr rfl
    · exact .inl rfl

theorem Step.headsFit {usizeBits : ℕ} (h : c.Step p c') (hfit : HeadsFit usizeBits c)
    (hp : CountsFit usizeBits [p]) : HeadsFit usizeBits c' := by
  intro e head hhead
  rcases h.slot (e,.head) with ⟨v,hsaves,hv⟩ | ⟨_,heq | hnone⟩
  · have hsaved : v = head := Option.some.inj (hv.symm.trans hhead)
    subst hsaved
    cases hsaves with
    | head _ m attributes tr os =>
      rw [L.size_ofMeta]
      exact hp _ List.mem_cons_self e m attributes rfl
  · exact hfit e head (heq.symm.trans hhead)
  · cases hnone.symm.trans hhead

theorem Steps.lastSaved {log : List (Performed L)} (h : Steps log c) {v : Content L x}
    (hv : c x = some v) : LastSaved log x v := by
  induction h with
  | nil => cases hv
  | @snoc log c c' _ p hp ih =>
    rcases hp.slot x with ⟨w,hsaves,hw⟩ | ⟨hquiet,heq | hnone⟩
    · have hsame : w = v := Option.some.inj (hw.symm.trans hv)
      subst hsame
      exact ⟨log,p,[],rfl,hsaves,by simp⟩
    · obtain ⟨pre,q,post,rfl,hsaves,hpost⟩ := ih (heq.symm.trans hv)
      refine ⟨pre,q,post ++ [p],by simp,hsaves,fun q' hq' => ?_⟩
      rcases List.mem_append.mp hq' with hq' | hq'
      · exact hpost q' hq'
      · rw [List.mem_singleton.mp hq']
        exact hquiet
    · cases hnone.symm.trans hv

end Cache

theorem headsFit_of_steps {usizeBits : ℕ} {log : List (Performed L)} {c : Cache L} (h : Cache.Steps log c)
    (hfit : CountsFit usizeBits log) : HeadsFit usizeBits c := by
  induction h with
  | nil => exact fun e h hh => (by cases hh)
  | snoc _ p hp ih =>
    have hlog := ih fun q hq => hfit q (List.mem_append_left _ hq)
    exact hp.headsFit hlog fun q hq => hfit q (List.mem_append_right _ hq)

/-- The maps `c k` after the first `k` calls are a run, and the storage holds each in its turn. -/
structure Refines (usizeBits : ℕ) (log : List (Performed L)) (c : ℕ → Cache L) : Prop where
  step : ∀ k p, log[k]? = some p → (c k).Step p (c (k + 1))
  steps : ∀ k ≤ log.length, Cache.Steps (log.take k) (c k)
  holds : ∀ k ≤ log.length, ∀ s, Run usizeBits (log.take k) s → Holds s (c k)
  lastSaved : ∀ k ≤ log.length, ∀ x v, c k x = some v → LastSaved (log.take k) x v

theorem refines_nil {usizeBits : ℕ} : Refines usizeBits ([] : List (Performed L)) (fun _ _ => none) where
  step k p hp := by cases hp
  steps k _ := by
    rw [List.take_nil]
    exact .nil
  holds k _ s hs := by
    rw [List.take_nil] at hs
    rw [hs.of_nil]
    exact represents_empty _ _
  lastSaved k _ x v hv := by cases hv

/-- A call that keeps the storage and the map together takes the run one further. -/
theorem Refines.snoc {usizeBits : ℕ} {log : List (Performed L)} {c : ℕ → Cache L} (h : Refines usizeBits log c)
    {p : Performed L} {c' : Cache L} (hp : (c log.length).Step p c')
    (hc' : ∀ s, Run usizeBits (log ++ [p]) s → Holds s c') :
    Refines usizeBits (log ++ [p]) (Function.update c (log.length + 1) c') := by
  have hearlier : ∀ k ≤ log.length, Function.update c (log.length + 1) c' k = c k :=
    fun k hk => Function.update_of_ne (by omega) _ _
  have hlast : Function.update c (log.length + 1) c' (log.length + 1) = c' := Function.update_self _ _ _
  have htake : ∀ k ≤ log.length, (log ++ [p]).take k = log.take k := fun k hk => List.take_append_of_le_length hk
  have hall : (log ++ [p]).take (log.length + 1) = log ++ [p] := List.take_of_length_le (by simp)
  have hcases : ∀ k ≤ (log ++ [p]).length, k ≤ log.length ∨ k = log.length + 1 := by
    intro k hk
    rw [List.length_append, List.length_singleton] at hk
    omega
  have hsteps : Cache.Steps (log ++ [p]) c' := by
    have hbefore := h.steps log.length (Nat.le_refl _)
    rw [List.take_length] at hbefore
    exact hbefore.snoc p hp
  refine ⟨?_,?_,?_,?_⟩
  · intro k q hq
    have hk := (List.getElem?_eq_some_iff.mp hq).1
    rw [List.length_append, List.length_singleton] at hk
    by_cases hlt : k < log.length
    · rw [hearlier k (Nat.le_of_lt hlt), hearlier (k + 1) hlt]
      rw [List.getElem?_append_left hlt] at hq
      exact h.step k q hq
    · obtain rfl : k = log.length := by omega
      rw [List.getElem?_concat_length] at hq
      cases hq
      rw [hearlier _ (Nat.le_refl _), hlast]
      exact hp
  · intro k hk
    rcases hcases k hk with hle | rfl
    · rw [hearlier k hle, htake k hle]
      exact h.steps k hle
    · rw [hlast, hall]
      exact hsteps
  · intro k hk s hs
    rcases hcases k hk with hle | rfl
    · rw [hearlier k hle]
      rw [htake k hle] at hs
      exact h.holds k hle s hs
    · rw [hlast]
      rw [hall] at hs
      exact hc' s hs
  · intro k hk x v hv
    rcases hcases k hk with hle | rfl
    · rw [hearlier k hle] at hv
      rw [htake k hle]
      exact h.lastSaved k hle x v hv
    · rw [hlast] at hv
      rw [hall]
      exact hsteps.lastSaved hv

/-- The cache behaves as the map from entries and slots to what was last saved, at every
moment of a run. -/
theorem cache_refines_map {usizeBits : ℕ} {log : List (Performed L)} {s : Storage.State L.Head}
    (h : Run usizeBits log s) (hfit : CountsFit usizeBits log) : ∃ c : ℕ → Cache L,
      Refines usizeBits log c ∧ Holds s (c log.length) := by
  induction h with
  | nil => exact ⟨_,refines_nil,represents_empty _ _⟩
  | @snoc log s t hrun p hr hc ih =>
    obtain ⟨c,hc₀,hholds⟩ := ih fun q hq => hfit q (List.mem_append_left _ hq)
    have hsteps := hc₀.steps log.length (Nat.le_refl _)
    rw [List.take_length] at hsteps
    have hheads := headsFit_of_steps hsteps fun q hq => hfit q (List.mem_append_left _ hq)
    obtain ⟨c',hstep,hholds'⟩ := step_of_performed hholds hheads hr hc
    have hend : ∀ u, Run usizeBits (log ++ [p]) u → Holds u c' := by
      intro u hu
      rw [hu.unique (.snoc hrun p hr hc)]
      exact hholds'
    refine ⟨_,hc₀.snoc hstep hend,?_⟩
    rw [List.length_append, List.length_singleton, Function.update_self]
    exact hholds'

def LocalCacheHead.plain : LocalCacheHead where
  Head := ObjectMeta × List (String × String)
  Attributes := List (String × String)
  ofMeta m attributes := (m,attributes)
  metadata := Prod.fst
  attributes := Prod.snd
  size_ofMeta _ _ := rfl

def savedAndRead (e : EntryId) : List (Performed LocalCacheHead.plain) :=
  [⟨.savePart e 0 [1,2,3],[⟨.put (e.entry.partKey 0) (.bytes [1,2,3]),.ok ()⟩],
    [(.doKvPuts,1),(.doKvRowsWritten,1),(.cachePartWrites,1),(.cacheWrittenBytes,3)],.ok ()⟩,
    ⟨.readPart e 0 (1,3),[⟨.getBytes (e.entry.partKey 0),.ok (some [1,2,3])⟩],
    [(.cachePartReads,1),(.doKvGets,1),(.cacheRequestedBytes,2),(.cachePartHits,1),(.doKvRowsRead,1),
      (.cacheLoadedBytes,3),(.cacheReturnedBytes,2)],.ok (some [2,3])⟩]

theorem cache_refines_map_savedAndRead : ∃ c : ℕ → Cache LocalCacheHead.plain,
    Refines 32 (savedAndRead ⟨⟨"wal/3",by decide⟩,1024,by decide⟩) c ∧
      Holds (Function.update (fun _ => none) "slatedb-cache:1024:5:wal/3:part:0" (some (.bytes [1,2,3]))) (c 2) := by
  let e : EntryId := ⟨⟨"wal/3",by decide⟩,1024,by decide⟩
  have hkey : e.entry.partKey 0 = "slatedb-cache:1024:5:wal/3:part:0" := by decide
  let s : Storage.State LocalCacheHead.plain.Head :=
    Function.update (fun _ => none) (e.entry.partKey 0) (some (.bytes [1,2,3]))
  have hsaved : Run 32 [(savedAndRead e)[0]] s := by
    refine Run.snoc .nil _ ?_ (.cons (.served rfl) (.nil _))
    exact .emit (.call (.emit (.emit (.emit (.refl _)))))
  have hread : Run 32 (savedAndRead e) s := by
    refine Run.snoc hsaved (savedAndRead e)[1] ?_ (.cons (.served ⟨rfl,?_⟩) (.nil _))
    · exact .emit (.emit (.emit (.call (.emit (.emit (.emit (.emit (.refl _))))))))
    · exact Function.update_self _ _ _
  have hfit : CountsFit 32 (savedAndRead e) := by
    intro p hp e m attributes hcall
    simp only [savedAndRead, List.mem_cons, List.not_mem_nil, or_false] at hp
    rcases hp with rfl | rfl <;> cases hcall
  rw [← hkey]
  exact cache_refines_map hread hfit

end SlatedbCloudflare.DoCache
