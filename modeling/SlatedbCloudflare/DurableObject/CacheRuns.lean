import SlatedbCloudflare.DurableObject.CacheKeys

/-! # Runs of the cache

Calls on any entries, one after the other from an empty storage, where any storage
call may fail; and what the replies to one call can be.
-/
namespace SlatedbCloudflare.DoCache
open Programs Traversals ObjectStore Storage Perf

inductive Call (L : LocalCacheHead)
  | savePart (e : EntryId) (partNumber : ℕ) (bytes : Bytes)
  | readPart (e : EntryId) (partNumber : ℕ) (rangeInPart : ℕ × ℕ)
  | saveHead (e : EntryId) (m : ObjectMeta) (attributes : L.Attributes)
  | readHead (e : EntryId)
  | delete (e : EntryId)
  | clear
  | isPopulated

variable {L : LocalCacheHead}

namespace Call

abbrev Failure : Call L → Type
  | .clear => String
  | .isPopulated => String
  | _ => Error

abbrev Value : Call L → Type
  | .savePart _ _ _ => Unit
  | .readPart _ _ _ => Option Bytes
  | .saveHead _ _ _ => Unit
  | .readHead _ => Option (ObjectMeta × L.Attributes)
  | .delete _ => Unit
  | .clear => Unit
  | .isPopulated => Bool

def prog (usizeBits : ℕ) : (call : Call L) → CacheM L call.Failure call.Value
  | .savePart e n bytes => DoCache.savePart e.entry n bytes
  | .readPart e n range => DoCache.readPart e.entry n range
  | .saveHead e m attributes => DoCache.saveHead e.entry m attributes
  | .readHead e => DoCache.readHead e.entry
  | .delete e => DoCache.delete usizeBits e.entry
  | .clear => DoCache.clear
  | .isPopulated => DoCache.isPopulated

end Call

abbrev Replies (L : LocalCacheHead) := List ((r : Storage.Request L.Head) × Storage.Reply r)

/-- A completed call with the replies it got, the counters it raised and its outcome. -/
structure Performed (L : LocalCacheHead) where
  call : Call L
  replies : Replies L
  outputs : List Increment
  outcome : Except call.Failure call.Value

inductive Run (usizeBits : ℕ) : List (Performed L) → Storage.State L.Head → Prop
  | nil : Run usizeBits [] (fun _ => none)
  | snoc {log : List (Performed L)} {s t : Storage.State L.Head} (h : Run usizeBits log s)
      (p : Performed L) (hr : Returns (p.call.prog usizeBits) p.replies p.outputs p.outcome)
      (hc : Chain Serve s p.replies t) : Run usizeBits (log ++ [p]) t

theorem Run.of_nil {usizeBits : ℕ} {s : Storage.State L.Head} (h : Run usizeBits [] s) : s = fun _ => none := by
  generalize hlog : ([] : List (Performed L)) = log at h
  cases h with
  | nil => rfl
  | snoc h p hr hc => exact absurd hlog.symm (by simp)

theorem Run.of_snoc {usizeBits : ℕ} {log : List (Performed L)} {p : Performed L} {t : Storage.State L.Head}
    (h : Run usizeBits (log ++ [p]) t) : ∃ s, Run usizeBits log s ∧
      Returns (p.call.prog usizeBits) p.replies p.outputs p.outcome ∧ Chain Serve s p.replies t := by
  generalize hlog : log ++ [p] = log' at h
  cases h with
  | nil => exact absurd hlog (by simp)
  | snoc h q hr hc =>
    obtain ⟨rfl,hlast⟩ := List.append_inj' hlog rfl
    cases hlast
    exact ⟨_,h,hr,hc⟩

/-- The calls and the replies to them determine what is stored. -/
theorem Run.unique {usizeBits : ℕ} {log : List (Performed L)} {s t : Storage.State L.Head}
    (h : Run usizeBits log s) (h' : Run usizeBits log t) : s = t := by
  induction h generalizing t with
  | nil => exact h'.of_nil.symm
  | snoc _ p _ hc ih =>
    obtain ⟨u,hu,_,hc'⟩ := h'.of_snoc
    rw [← ih hu] at hc'
    refine Chain.unique ?_ hc hc'
    exact fun _ _ _ _ _ hs hs' => hs.unique hs'

def Succeeded (tr : Replies L) : Prop := ∀ x ∈ tr, ∃ v, x.2 = .ok v

theorem succeeded_ok {r : Storage.Request L.Head} {v : Storage.Returned r} :
    Succeeded [⟨r,.ok v⟩] := by
  intro x hx
  rw [List.mem_singleton] at hx
  subst hx
  exact ⟨v,rfl⟩

theorem not_succeeded {r : Storage.Request L.Head} {e : String} {tr : Replies L} :
    ¬ Succeeded (⟨r,.error e⟩ :: tr) := by
  intro h
  obtain ⟨v,hv⟩ := h _ List.mem_cons_self
  cases hv

def Answered (tr : Replies L) (i : ℕ) : Prop := ∃ r v, tr[i]? = some ⟨r,.ok v⟩

theorem answered_zero {r : Storage.Request L.Head} {y : Storage.Reply r} {tr : Replies L} :
    Answered (⟨r,y⟩ :: tr) 0 ↔ ∃ v, y = .ok v := by
  constructor
  · rintro ⟨_,v,hv⟩
    cases hv
    exact ⟨v,rfl⟩
  · rintro ⟨v,rfl⟩
    exact ⟨r,v,rfl⟩

theorem answered_succ {x : (r : Storage.Request L.Head) × Storage.Reply r} {tr : Replies L} {i : ℕ} :
    Answered (x :: tr) (i + 1) ↔ Answered tr i := Iff.rfl

theorem Succeeded.answered {tr : Replies L} (h : Succeeded tr) {i : ℕ} (hi : i < tr.length) :
    Answered tr i := by
  obtain ⟨v,hv⟩ := h tr[i] (List.getElem_mem hi)
  refine ⟨tr[i].1,v,?_⟩
  rw [List.getElem?_eq_getElem hi, ← hv]

section Outcomes
variable {e : DoCacheEntry} {n : ℕ} {tr : Replies L} {os : List Increment}

theorem savePart_returns {bytes : Bytes} {r : Except Error Unit}
    (h : Returns (savePart e n bytes) tr os r) :
    (tr = [⟨.put (e.partKey n) (.bytes bytes),.ok ()⟩] ∧ r = .ok ()) ∨
      ∃ error, tr = [⟨.put (e.partKey n) (.bytes bytes),.error error⟩] ∧
        r = .error (cacheMessage error) := by
  obtain ⟨_,_,h₁⟩ := h.of_emit
  obtain ⟨x,tr',rfl,h₂⟩ := h₁.of_call
  rcases x with error | _
  · obtain ⟨_,_,h₃⟩ := h₂.of_emit
    obtain ⟨rfl,_,rfl⟩ := h₃.of_err
    exact .inr ⟨error,rfl,rfl⟩
  · obtain ⟨_,_,h₃⟩ := h₂.of_emit
    obtain ⟨_,_,h₄⟩ := h₃.of_emit
    obtain ⟨_,_,h₅⟩ := h₄.of_emit
    obtain ⟨rfl,_,rfl⟩ := h₅.of_ok
    exact .inl ⟨rfl,rfl⟩

theorem saveHead_returns {m : ObjectMeta} {attributes : L.Attributes} {r : Except Error Unit}
    (h : Returns (saveHead e m attributes) tr os r) :
    (tr = [⟨.put e.headKey (.head (L.ofMeta m attributes)),.ok ()⟩] ∧ r = .ok ()) ∨
      ∃ error, tr = [⟨.put e.headKey (.head (L.ofMeta m attributes)),.error error⟩] ∧
        r = .error (cacheMessage error) := by
  obtain ⟨_,_,h₁⟩ := h.of_emit
  obtain ⟨x,tr',rfl,h₂⟩ := h₁.of_call
  rcases x with error | _
  · obtain ⟨_,_,h₃⟩ := h₂.of_emit
    obtain ⟨rfl,_,rfl⟩ := h₃.of_err
    exact .inr ⟨error,rfl,rfl⟩
  · obtain ⟨_,_,h₃⟩ := h₂.of_emit
    obtain ⟨_,_,h₄⟩ := h₃.of_emit
    obtain ⟨rfl,_,rfl⟩ := h₄.of_ok
    exact .inl ⟨rfl,rfl⟩

def readSlice (stored : Option Bytes) (range : ℕ × ℕ) : Except Error (Option Bytes) :=
  match stored with
  | none => .ok none
  | some bytes =>
    if Fits bytes range then .ok (some (slice bytes range))
    else .error (cacheMessage "cached part is shorter than requested range")

theorem readPart_returns {range : ℕ × ℕ} {r : Except Error (Option Bytes)}
    (h : Returns (readPart e n range) tr os r) :
    (∃ v, tr = [⟨.getBytes (e.partKey n),.ok v⟩] ∧ r = readSlice v range) ∨
      ∃ error, tr = [⟨.getBytes (e.partKey n),.error error⟩] ∧ r = .error (cacheMessage error) := by
  obtain ⟨_,_,h₁⟩ := h.of_emit
  obtain ⟨_,_,h₂⟩ := h₁.of_emit
  obtain ⟨_,_,h₃⟩ := h₂.of_emit
  obtain ⟨x,tr',rfl,h₄⟩ := h₃.of_call
  rcases x with error | _ | bytes
  · obtain ⟨_,_,h₅⟩ := h₄.of_emit
    obtain ⟨rfl,_,rfl⟩ := h₅.of_err
    exact .inr ⟨error,rfl,rfl⟩
  · obtain ⟨_,_,h₅⟩ := h₄.of_emit
    obtain ⟨rfl,_,rfl⟩ := h₅.of_ok
    exact .inl ⟨none,rfl,rfl⟩
  · obtain ⟨_,_,h₅⟩ := h₄.of_emit
    obtain ⟨_,_,h₆⟩ := h₅.of_emit
    obtain ⟨_,_,h₇⟩ := h₆.of_emit
    refine .inl ⟨some bytes,?_⟩
    simp only [cachedRange] at h₇
    split at h₇
    next hfits =>
      obtain ⟨_,_,h₈⟩ := h₇.of_emit
      obtain ⟨rfl,_,rfl⟩ := h₈.of_ok
      exact ⟨rfl,by simp [readSlice, hfits]⟩
    next hfits =>
      obtain ⟨_,_,h₈⟩ := h₇.of_emit
      obtain ⟨rfl,_,rfl⟩ := h₈.of_err
      exact ⟨rfl,by simp [readSlice, hfits]⟩

def readStored (head : Option L.Head) : Option (ObjectMeta × L.Attributes) :=
  head.map (fun h => (L.metadata h,L.attributes h))

theorem readHead_returns {r : Except Error (Option (ObjectMeta × L.Attributes))}
    (h : Returns (readHead e) tr os r) :
    (∃ v, tr = [⟨.getHead e.headKey,.ok v⟩] ∧ r = .ok (readStored v)) ∨
      ∃ error, tr = [⟨.getHead e.headKey,.error error⟩] ∧ r = .error (cacheMessage error) := by
  obtain ⟨_,_,h₁⟩ := h.of_emit
  obtain ⟨_,_,h₂⟩ := h₁.of_emit
  obtain ⟨x,tr',rfl,h₃⟩ := h₂.of_call
  rcases x with error | _ | head
  · obtain ⟨_,_,h₄⟩ := h₃.of_emit
    obtain ⟨rfl,_,rfl⟩ := h₄.of_err
    exact .inr ⟨error,rfl,rfl⟩
  · obtain ⟨_,_,h₄⟩ := h₃.of_emit
    obtain ⟨rfl,_,rfl⟩ := h₄.of_ok
    exact .inl ⟨none,rfl,rfl⟩
  · obtain ⟨_,_,h₄⟩ := h₃.of_emit
    obtain ⟨_,_,h₅⟩ := h₄.of_emit
    obtain ⟨rfl,_,rfl⟩ := h₅.of_ok
    exact .inl ⟨some head,rfl,rfl⟩

theorem deleteChunks_returns {chunks : List (List String)} {r : Except Error Unit}
    (h : Returns (deleteChunks chunks) tr os r) :
    r = .ok () ∧ tr.map Sigma.fst = chunks.map .deleteMultiple := by
  induction chunks generalizing tr os with
  | nil =>
    obtain ⟨rfl,_,rfl⟩ := h.of_ok
    exact ⟨rfl,rfl⟩
  | cons chunk rest ih =>
    obtain ⟨_,_,h₁⟩ := h.of_emit
    obtain ⟨x,tr',rfl,h₂⟩ := h₁.of_call
    rcases x with error | deleted
    · obtain ⟨hr,htr⟩ := ih h₂
      exact ⟨hr,by rw [List.map_cons, htr]; rfl⟩
    · obtain ⟨_,_,h₃⟩ := h₂.of_emit
      obtain ⟨hr,htr⟩ := ih h₃
      exact ⟨hr,by rw [List.map_cons, htr]; rfl⟩

/-- The head as `delete` sees it: a failed read counts as a missing head. -/
def seenHead (x : Except String (Option L.Head)) : Option L.Head := x.toOption.join

/-- The keys of the parts that `delete` asks for. -/
def seenParts (usizeBits : ℕ) (e : DoCacheEntry) (head : Option L.Head) : List String :=
  match head with
  | some h => partKeys usizeBits e (L.metadata h).size
  | none => []

theorem deleteParts_returns {usizeBits : ℕ} {head : Option L.Head} {r : Except Error Unit}
    (h : Returns (deleteParts usizeBits e (readStored head)) tr os r) :
    r = .ok () ∧ tr.map Sigma.fst = (chunks 128 (seenParts usizeBits e head)).map .deleteMultiple := by
  cases head with
  | none =>
    obtain ⟨rfl,_,rfl⟩ := h.of_ok
    exact ⟨rfl,by simp [seenParts, chunks]⟩
  | some head => exact deleteChunks_returns h

theorem delete_returns {usizeBits : ℕ} {r : Except Error Unit}
    (h : Returns (delete usizeBits e) tr os r) :
    r = .ok () ∧ ∃ x y tr', tr = ⟨.getHead e.headKey,x⟩ :: ⟨.delete e.headKey,y⟩ :: tr' ∧
      tr'.map Sigma.fst = (chunks 128 (seenParts usizeBits e (seenHead x))).map .deleteMultiple := by
  have hrest : ∀ {tr : Replies L} {os : List Increment} {k : Except String Bool → CacheM L Error Unit}
      (head : Option L.Head), (∀ error, k (.error error) = deleteParts usizeBits e (readStored head)) →
      (∀ deleted, k (.ok deleted) = do
        increment .doKvRowsWritten deleted.toNat
        deleteParts usizeBits e (readStored head)) →
      Returns (do
        increment .doKvDeletes 1
        let result : Except String Bool ← Prog.ask (Storage.Request.delete e.headKey)
        k result) tr os r →
      r = .ok () ∧ ∃ y tr', tr = ⟨.delete e.headKey,y⟩ :: tr' ∧
        tr'.map Sigma.fst = (chunks 128 (seenParts usizeBits e head)).map .deleteMultiple := by
    intro tr os k head herror hok h
    obtain ⟨_,_,h₁⟩ := h.of_emit
    obtain ⟨y,tr',rfl,h₂⟩ := h₁.of_call
    change Returns (k y) _ _ _ at h₂
    rcases y with error | deleted
    · rw [herror] at h₂
      obtain ⟨hr,htr⟩ := deleteParts_returns h₂
      exact ⟨hr,_,tr',rfl,htr⟩
    · rw [hok] at h₂
      obtain ⟨_,_,h₃⟩ := h₂.of_emit
      obtain ⟨hr,htr⟩ := deleteParts_returns h₃
      exact ⟨hr,_,tr',rfl,htr⟩
  obtain ⟨_,_,h₁⟩ := h.of_emit
  obtain ⟨_,_,h₂⟩ := h₁.of_emit
  obtain ⟨x,tr',rfl,h₃⟩ := h₂.of_call
  rcases x with error | _ | head
  · obtain ⟨_,_,h₄⟩ := h₃.of_emit
    obtain ⟨hr,y,tr'',rfl,htr⟩ := hrest none (fun _ => rfl) (fun _ => rfl) h₄
    exact ⟨hr,_,y,tr'',rfl,htr⟩
  · obtain ⟨_,_,h₄⟩ := h₃.of_emit
    obtain ⟨hr,y,tr'',rfl,htr⟩ := hrest none (fun _ => rfl) (fun _ => rfl) h₄
    exact ⟨hr,_,y,tr'',rfl,htr⟩
  · obtain ⟨_,_,h₄⟩ := h₃.of_emit
    obtain ⟨_,_,h₅⟩ := h₄.of_emit
    obtain ⟨hr,y,tr'',rfl,htr⟩ := hrest (some head) (fun _ => rfl) (fun _ => rfl) h₅
    exact ⟨hr,_,y,tr'',rfl,htr⟩

theorem clear_returns {r : Except String Unit} (h : Returns (clear (L := L)) tr os r) :
    tr = [⟨.deleteAll,r⟩] := by
  obtain ⟨_,_,h₁⟩ := h.of_emit
  obtain ⟨x,tr',rfl,h₂⟩ := h₁.of_call
  rcases x with error | _
  · obtain ⟨rfl,_,rfl⟩ := h₂.of_err
    rfl
  · obtain ⟨rfl,_,rfl⟩ := h₂.of_ok
    rfl

theorem isPopulated_returns {r : Except String Bool} (h : Returns (isPopulated (L := L)) tr os r) :
    (∃ entries : ℕ, tr = [⟨.list CACHE_PREFIX 1,.ok entries⟩] ∧ r = .ok (entries ≠ 0)) ∨
      ∃ error, tr = [⟨.list CACHE_PREFIX 1,.error error⟩] ∧ r = .error error := by
  obtain ⟨_,_,h₁⟩ := h.of_emit
  obtain ⟨x,tr',rfl,h₂⟩ := h₁.of_call
  rcases x with error | entries
  · obtain ⟨rfl,_,rfl⟩ := h₂.of_err
    exact .inr ⟨error,rfl,rfl⟩
  · obtain ⟨_,_,h₃⟩ := h₂.of_emit
    obtain ⟨rfl,_,rfl⟩ := h₃.of_ok
    exact .inl ⟨entries,rfl,rfl⟩

end Outcomes

end SlatedbCloudflare.DoCache
