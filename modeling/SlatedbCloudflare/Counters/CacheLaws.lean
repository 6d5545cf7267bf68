import SlatedbCloudflare.Library.Counting
import SlatedbCloudflare.DurableObject.CacheRefinement
import Mathlib.Data.List.Induction

/-! # The laws of the cache counters

The counters of the cache are 64-bit atomics that wrap around. While none of them
does, reads are hits, misses or failed loads, puts are writes or failed puts, and
every error is a failed call or a part that was too short.
-/
namespace SlatedbCloudflare.DoCache
open Programs Counting ObjectStore Storage Perf

variable {L : LocalCacheHead}

/-- What the storage did in the calls, as far as the counters tell of it. -/
structure Happened where
  failedPartLoads : ℕ
  failedHeadLoads : ℕ
  failedPuts : ℕ
  rejectedParts : ℕ
  listedRows : ℕ

namespace Happened

def none : Happened := ⟨0,0,0,0,0⟩

def add (a b : Happened) : Happened :=
  ⟨a.failedPartLoads + b.failedPartLoads,a.failedHeadLoads + b.failedHeadLoads,a.failedPuts + b.failedPuts,
    a.rejectedParts + b.rejectedParts,a.listedRows + b.listedRows⟩

def one (call : Call L) : (r : Storage.Request L.Head) × Storage.Reply r → Happened
  | ⟨.getBytes _,.error _⟩ => { none with failedPartLoads := 1 }
  | ⟨.getBytes _,.ok (some bytes)⟩ => match call with
    | .readPart _ _ range => { none with rejectedParts := if Fits bytes range then 0 else 1 }
    | _ => none
  | ⟨.getHead _,.error _⟩ => { none with failedHeadLoads := 1 }
  | ⟨.put _ _,.error _⟩ => { none with failedPuts := 1 }
  | ⟨.list _ _,.ok rows⟩ => { none with listedRows := rows }
  | _ => none

def replies (call : Call L) : Replies L → Happened
  | [] => none
  | x :: tr => (one call x).add (replies call tr)

def calls : List (Performed L) → Happened
  | [] => none
  | p :: log => (replies p.call p.replies).add (calls log)

end Happened

/-- The conservation laws. -/
structure Conserved (n : PerfCounter → ℕ) (h : Happened) : Prop where
  gets : n .doKvGets = n .cachePartReads + n .cacheHeadReads
  partReads : n .cachePartReads = n .cachePartHits + n .cachePartMisses + h.failedPartLoads
  headReads : n .cacheHeadReads = n .cacheHeadHits + n .cacheHeadMisses + h.failedHeadLoads
  puts : n .doKvPuts = n .cachePartWrites + n .cacheHeadWrites + h.failedPuts
  errors : n .cacheErrors = h.failedPartLoads + h.failedHeadLoads + h.failedPuts + h.rejectedParts
  rowsRead : n .doKvRowsRead = n .cachePartHits + n .cacheHeadHits + h.listedRows
  returned_le_loaded : n .cacheReturnedBytes ≤ n .cacheLoadedBytes
  returned_le_requested : n .cacheReturnedBytes ≤ n .cacheRequestedBytes

theorem Conserved.zero : Conserved (fun _ => 0) .none :=
  ⟨rfl,rfl,rfl,rfl,rfl,rfl,le_rfl,le_rfl⟩

theorem Conserved.add {m n : PerfCounter → ℕ} {a b : Happened} (hm : Conserved m a) (hn : Conserved n b) :
    Conserved (fun c => m c + n c) (a.add b) := by
  cases a
  cases b
  obtain ⟨hm₁,hm₂,hm₃,hm₄,hm₅,hm₆,hm₇,hm₈⟩ := hm
  obtain ⟨hn₁,hn₂,hn₃,hn₄,hn₅,hn₆,hn₇,hn₈⟩ := hn
  constructor <;> dsimp only [Happened.add] at * <;> omega

section Calls
variable {call : Call L} {tr : Replies L} {os : List Increment}

/-- What a piece of a call did obeys the laws. -/
def Lawful (call : Call L) (tr : Replies L) (os : List Increment) : Prop :=
  Conserved (fun c => raised c os) (.replies call tr)

theorem Happened.replies_append (tr tr' : Replies L) :
    Happened.replies call (tr ++ tr') = (Happened.replies call tr).add (Happened.replies call tr') := by
  induction tr with
  | nil => simp [Happened.replies, Happened.add, Happened.none]
  | cons x tr ih => simp [Happened.replies, ih, Happened.add, Nat.add_assoc]

theorem Lawful.append {tr' : Replies L} {os' : List Increment} (h : Lawful call tr os)
    (h' : Lawful call tr' os') : Lawful call (tr ++ tr') (os ++ os') := by
  have hadd := Conserved.add h h'
  rw [Lawful, Happened.replies_append]
  simpa only [raised_append] using hadd

section Pieces
attribute [local simp] raised Happened.replies Happened.one Happened.add Happened.none

theorem savePart_lawful {e : DoCacheEntry} {n : ℕ} {bytes : Bytes} {r : Except Error Unit}
    (h : Returns (savePart e n bytes) tr os r) : Lawful call tr os := by
  obtain ⟨_,rfl,h₁⟩ := h.of_emit
  obtain ⟨x,_,rfl,h₂⟩ := h₁.of_call
  rcases x with error | _
  · obtain ⟨_,rfl,h₃⟩ := h₂.of_emit
    obtain ⟨rfl,rfl,rfl⟩ := h₃.of_err
    constructor <;> simp
  · obtain ⟨_,rfl,h₃⟩ := h₂.of_emit
    obtain ⟨_,rfl,h₄⟩ := h₃.of_emit
    obtain ⟨_,rfl,h₅⟩ := h₄.of_emit
    obtain ⟨rfl,rfl,rfl⟩ := h₅.of_ok
    constructor <;> simp

theorem saveHead_lawful {e : DoCacheEntry} {m : ObjectMeta} {attributes : L.Attributes} {r : Except Error Unit}
    (h : Returns (saveHead e m attributes) tr os r) : Lawful call tr os := by
  obtain ⟨_,rfl,h₁⟩ := h.of_emit
  obtain ⟨x,_,rfl,h₂⟩ := h₁.of_call
  rcases x with error | _
  · obtain ⟨_,rfl,h₃⟩ := h₂.of_emit
    obtain ⟨rfl,rfl,rfl⟩ := h₃.of_err
    constructor <;> simp
  · obtain ⟨_,rfl,h₃⟩ := h₂.of_emit
    obtain ⟨_,rfl,h₄⟩ := h₃.of_emit
    obtain ⟨rfl,rfl,rfl⟩ := h₄.of_ok
    constructor <;> simp

theorem readPart_lawful {e : EntryId} {n : ℕ} {range : ℕ × ℕ} {r : Except Error (Option Bytes)}
    (h : Returns (readPart e.entry n range) tr os r) : Lawful (.readPart e n range) tr os := by
  obtain ⟨_,rfl,h₁⟩ := h.of_emit
  obtain ⟨_,rfl,h₂⟩ := h₁.of_emit
  obtain ⟨_,rfl,h₃⟩ := h₂.of_emit
  obtain ⟨x,_,rfl,h₄⟩ := h₃.of_call
  rcases x with error | _ | bytes
  · obtain ⟨_,rfl,h₅⟩ := h₄.of_emit
    obtain ⟨rfl,rfl,rfl⟩ := h₅.of_err
    constructor <;> simp
  · obtain ⟨_,rfl,h₅⟩ := h₄.of_emit
    obtain ⟨rfl,rfl,rfl⟩ := h₅.of_ok
    constructor <;> simp
  · obtain ⟨_,rfl,h₅⟩ := h₄.of_emit
    obtain ⟨_,rfl,h₆⟩ := h₅.of_emit
    obtain ⟨_,rfl,h₇⟩ := h₆.of_emit
    simp only [cachedRange] at h₇
    split at h₇
    next hfits =>
      obtain ⟨_,rfl,h₈⟩ := h₇.of_emit
      obtain ⟨rfl,rfl,rfl⟩ := h₈.of_ok
      have hlen : rangeLen range ≤ bytes.length := (Nat.sub_le _ _).trans hfits.2
      constructor <;> simp [hfits, hlen]
    next hfits =>
      obtain ⟨_,rfl,h₈⟩ := h₇.of_emit
      obtain ⟨rfl,rfl,rfl⟩ := h₈.of_err
      constructor <;> simp [hfits]

theorem readHead_lawful {e : DoCacheEntry} {r : Except Error (Option (ObjectMeta × L.Attributes))}
    (h : Returns (readHead e) tr os r) : Lawful call tr os := by
  obtain ⟨_,rfl,h₁⟩ := h.of_emit
  obtain ⟨_,rfl,h₂⟩ := h₁.of_emit
  obtain ⟨x,_,rfl,h₃⟩ := h₂.of_call
  rcases x with error | _ | head
  · obtain ⟨_,rfl,h₄⟩ := h₃.of_emit
    obtain ⟨rfl,rfl,rfl⟩ := h₄.of_err
    constructor <;> simp
  · obtain ⟨_,rfl,h₄⟩ := h₃.of_emit
    obtain ⟨rfl,rfl,rfl⟩ := h₄.of_ok
    constructor <;> simp
  · obtain ⟨_,rfl,h₄⟩ := h₃.of_emit
    obtain ⟨_,rfl,h₅⟩ := h₄.of_emit
    obtain ⟨rfl,rfl,rfl⟩ := h₅.of_ok
    constructor <;> simp

theorem clear_lawful {r : Except String Unit} (h : Returns (clear (L := L)) tr os r) : Lawful call tr os := by
  obtain ⟨_,rfl,h₁⟩ := h.of_emit
  obtain ⟨x,_,rfl,h₂⟩ := h₁.of_call
  rcases x with error | _
  · obtain ⟨rfl,rfl,rfl⟩ := h₂.of_err
    constructor <;> simp
  · obtain ⟨rfl,rfl,rfl⟩ := h₂.of_ok
    constructor <;> simp

theorem isPopulated_lawful {r : Except String Bool} (h : Returns (isPopulated (L := L)) tr os r) :
    Lawful call tr os := by
  obtain ⟨_,rfl,h₁⟩ := h.of_emit
  obtain ⟨x,_,rfl,h₂⟩ := h₁.of_call
  rcases x with error | entries
  · obtain ⟨rfl,rfl,rfl⟩ := h₂.of_err
    constructor <;> simp
  · obtain ⟨_,rfl,h₃⟩ := h₂.of_emit
    obtain ⟨rfl,rfl,rfl⟩ := h₃.of_ok
    constructor <;> simp

end Pieces

/-- The counters and the storage calls that only `delete` uses. -/
def Deletes : Storage.Request L.Head → Prop
  | .delete _ | .deleteMultiple _ => True
  | _ => False

def DeleteCounter (o : Increment) : Prop := o.1 = .doKvDeletes ∨ o.1 = .doKvRowsWritten

theorem deletion_lawful (htr : ∀ x ∈ tr, Deletes x.1) (hos : ∀ o ∈ os, DeleteCounter o) : Lawful call tr os := by
  have hraised : ∀ c, c ≠ .doKvDeletes → c ≠ .doKvRowsWritten → raised c os = 0 := by
    intro c hdeletes hrows
    refine raised_eq_zero c fun o ho => ?_
    rcases hos o ho with h | h
    · rw [h]
      exact hdeletes.symm
    · rw [h]
      exact hrows.symm
  have hnone : Happened.replies call tr = .none := by
    clear hos hraised
    induction tr with
    | nil => rfl
    | cons x tr ih =>
      obtain ⟨hx,htr⟩ := List.forall_mem_cons.mp htr
      have hone : Happened.one call x = .none := by
        obtain ⟨r,x⟩ := x
        cases r with
        | delete | deleteMultiple => rfl
        | _ => exact hx.elim
      rw [Happened.replies, ih htr, hone]
      rfl
  rw [Lawful, hnone]
  constructor <;> simp [hraised, Happened.none]

theorem deleteChunks_emits (chunks : List (List String)) :
    (deleteChunks (L := L) chunks).Emits DeleteCounter ∧ (deleteChunks (L := L) chunks).Asks Deletes := by
  induction chunks with
  | nil => exact ⟨trivial,trivial⟩
  | cons chunk rest ih =>
    refine ⟨⟨.inl rfl,fun x => ?_⟩,trivial,fun x => ?_⟩
    · cases x with
      | error e => exact ih.1
      | ok deleted => exact ⟨.inr rfl,ih.1⟩
    · cases x with
      | error e => exact ih.2
      | ok deleted => exact ih.2

theorem deleteParts_emits (usizeBits : ℕ) (e : DoCacheEntry) (head : Option (ObjectMeta × L.Attributes)) :
    (deleteParts usizeBits e head).Emits DeleteCounter ∧ (deleteParts usizeBits e head).Asks Deletes := by
  cases head with
  | none => exact ⟨trivial,trivial⟩
  | some head => exact deleteChunks_emits _

/-- `delete` reads the head as `readHead` does, and the rest of it are deletions. -/
theorem delete_lawful {usizeBits : ℕ} {e : DoCacheEntry} {r : Except Error Unit}
    (h : Returns (delete usizeBits e) tr os r) : Lawful call tr os := by
  have hread : ∀ {tr os} {r : Except Error (Option (ObjectMeta × L.Attributes))},
      Returns ((readHead e).recover fun _ : Error => pure none) tr os r → Lawful call tr os := by
    intro tr os r h
    rcases h.of_recover with ⟨a,rfl,ha⟩ | ⟨error,tr₁,tr₂,os₁,os₂,rfl,rfl,h₁,h₂⟩
    · exact readHead_lawful ha
    · obtain ⟨rfl,rfl,rfl⟩ := h₂.of_ok
      rw [List.append_nil, List.append_nil]
      exact readHead_lawful h₁
  rcases h.of_bind with ⟨error,rfl,hfailed⟩ | ⟨head,tr₁,tr₂,os₁,os₂,rfl,rfl,h₁,h₂⟩
  · exact hread hfailed
  · refine (hread h₁).append ?_
    obtain ⟨os',rfl,h₃⟩ := h₂.of_emit
    obtain ⟨x,tr',rfl,h₄⟩ := h₃.of_call
    obtain ⟨hemits,hasks⟩ := deleteParts_emits usizeBits e head
    rcases x with error | deleted
    · have h₅ : Returns (deleteParts usizeBits e head) tr' os' r := h₄
      exact deletion_lawful (List.forall_mem_cons.mpr ⟨trivial,Consumes.asks h₅ hasks⟩)
        (List.forall_mem_cons.mpr ⟨.inl rfl,Consumes.emits h₅ hemits⟩)
    · obtain ⟨os'',rfl,h₅⟩ := h₄.of_emit
      exact deletion_lawful (List.forall_mem_cons.mpr ⟨trivial,Consumes.asks h₅ hasks⟩)
        (List.forall_mem_cons.mpr ⟨.inl rfl,List.forall_mem_cons.mpr ⟨.inr rfl,Consumes.emits h₅ hemits⟩⟩)

theorem Performed.lawful {usizeBits : ℕ} {p : Performed L}
    (hr : Returns (p.call.prog usizeBits) p.replies p.outputs p.outcome) :
    Lawful p.call p.replies p.outputs := by
  obtain ⟨call,tr,os,r⟩ := p
  cases call with
  | savePart e n bytes => exact savePart_lawful hr
  | readPart e n range => exact readPart_lawful hr
  | saveHead e m attributes => exact saveHead_lawful hr
  | readHead e => exact readHead_lawful hr
  | delete e => exact delete_lawful hr
  | clear => exact clear_lawful hr
  | isPopulated => exact isPopulated_lawful hr

end Calls

/-- `fetch_add` -/
def fetchAdd (n : PerfCounter → ℕ) (o : Increment) : PerfCounter → ℕ :=
  Function.update n o.1 ((n o.1 + o.2) % 2 ^ 64)

/-- Completed calls and the counters after them, however the storage answers. -/
inductive Counted (usizeBits : ℕ) : List (Performed L) → (PerfCounter → ℕ) → Prop
  | nil : Counted usizeBits [] (fun _ => 0)
  | snoc {log : List (Performed L)} {n : PerfCounter → ℕ} (h : Counted usizeBits log n) (p : Performed L)
      (hr : Returns (p.call.prog usizeBits) p.replies p.outputs p.outcome) :
      Counted usizeBits (log ++ [p]) (p.outputs.foldl fetchAdd n)

theorem foldl_fetchAdd (os : List Increment) {n : PerfCounter → ℕ} {c : PerfCounter} (hn : n c < 2 ^ 64) :
    os.foldl fetchAdd n c = (n c + raised c os) % 2 ^ 64 := by
  induction os generalizing n with
  | nil => simpa using (Nat.mod_eq_of_lt hn).symm
  | cons o os ih =>
    obtain ⟨d,v⟩ := o
    by_cases hd : d = c
    · subst hd
      have hself : fetchAdd n (d,v) d = (n d + v) % 2 ^ 64 := by simp [fetchAdd]
      have hlt : fetchAdd n (d,v) d < 2 ^ 64 := by
        rw [hself]
        exact Nat.mod_lt _ (by decide)
      rw [List.foldl_cons, ih hlt, hself, raised_cons_self, Nat.mod_add_mod, Nat.add_assoc]
    · have hother : fetchAdd n (d,v) c = n c := by simp [fetchAdd, Function.update_of_ne (Ne.symm hd)]
      rw [List.foldl_cons, ih (by rwa [hother]), hother, raised_cons_ne c hd]

abbrev increments (log : List (Performed L)) : List Increment := log.flatMap Performed.outputs

theorem increments_snoc (log : List (Performed L)) (p : Performed L) :
    increments (log ++ [p]) = increments log ++ p.outputs := by
  rw [increments, List.flatMap_append, List.flatMap_singleton]

section Session
variable {usizeBits : ℕ} {log : List (Performed L)} {n : PerfCounter → ℕ}

theorem Counted.counters (h : Counted usizeBits log n) (c : PerfCounter) :
    n c = raised c (increments log) % 2 ^ 64 := by
  induction h with
  | nil => simp
  | snoc h p hr ih =>
    have hlt := ih.trans_lt (Nat.mod_lt _ (by decide))
    rw [foldl_fetchAdd _ hlt, ih, Nat.mod_add_mod, increments_snoc, raised_append]

theorem Happened.calls_snoc (log : List (Performed L)) (p : Performed L) :
    Happened.calls (log ++ [p]) = (Happened.calls log).add (Happened.replies p.call p.replies) := by
  induction log with
  | nil => simp [Happened.calls, Happened.add, Happened.none]
  | cons q log ih => simp [Happened.calls, ih, Happened.add, Nat.add_assoc]

theorem Counted.raised_conserved (h : Counted usizeBits log n) :
    Conserved (fun c => raised c (increments log)) (Happened.calls log) := by
  induction h with
  | nil => exact .zero
  | snoc _ p hr ih =>
    have hadd := ih.add (Performed.lawful hr)
    rw [Happened.calls_snoc]
    simpa only [increments_snoc, raised_append] using hadd

theorem counted_of_returns (h : ∀ p ∈ log, Returns (p.call.prog usizeBits) p.replies p.outputs p.outcome) :
    Counted usizeBits log ((increments log).foldl fetchAdd fun _ => 0) := by
  induction log using List.reverseRecOn with
  | nil => exact .nil
  | append_singleton log p ih =>
    obtain ⟨hlog,hlast⟩ := List.forall_mem_append.mp h
    rw [increments_snoc, List.foldl_append]
    exact (ih hlog).snoc p (hlast p (List.mem_singleton_self p))

/-- After any calls on the cache, while no counter has wrapped around. -/
theorem cache_counters_conserved (h : Counted usizeBits log n)
    (hbound : ∀ c, raised c (increments log) < 2 ^ 64) : Conserved n (Happened.calls log) := by
  have hn : n = fun c => raised c (increments log) := by
    funext c
    rw [h.counters c, Nat.mod_eq_of_lt (hbound c)]
  rw [hn]
  exact h.raised_conserved

end Session

section Busy

def busyEntry : EntryId := ⟨⟨"sst/busy",by decide⟩,2048,by decide⟩

def busyMeta : ObjectMeta := ⟨busyEntry.location,0,2051,none,none⟩

/-- Saves and reads of an entry, each kind of failure, a part that is too short, a deletion
and a listing. -/
def busy : List (Performed LocalCacheHead.plain) :=
  [⟨.saveHead busyEntry busyMeta [],[⟨.put busyEntry.entry.headKey (.head (busyMeta,[])),.ok ()⟩],
      [(.doKvPuts,1),(.doKvRowsWritten,1),(.cacheHeadWrites,1)],.ok ()⟩,
    ⟨.savePart busyEntry 1 [1,2,3],[⟨.put (busyEntry.entry.partKey 1) (.bytes [1,2,3]),.ok ()⟩],
      [(.doKvPuts,1),(.doKvRowsWritten,1),(.cachePartWrites,1),(.cacheWrittenBytes,3)],.ok ()⟩,
    ⟨.savePart busyEntry 0 [0],[⟨.put (busyEntry.entry.partKey 0) (.bytes [0]),.error "storage is overloaded"⟩],
      [(.doKvPuts,1),(.cacheErrors,1)],.error (cacheMessage "storage is overloaded")⟩,
    ⟨.readHead busyEntry,[⟨.getHead busyEntry.entry.headKey,.ok (some (busyMeta,[]))⟩],
      [(.cacheHeadReads,1),(.doKvGets,1),(.cacheHeadHits,1),(.doKvRowsRead,1)],.ok (some (busyMeta,[]))⟩,
    ⟨.readPart busyEntry 1 (1,3),[⟨.getBytes (busyEntry.entry.partKey 1),.ok (some [1,2,3])⟩],
      [(.cachePartReads,1),(.doKvGets,1),(.cacheRequestedBytes,2),(.cachePartHits,1),(.doKvRowsRead,1),
        (.cacheLoadedBytes,3),(.cacheReturnedBytes,2)],.ok (some [2,3])⟩,
    ⟨.readPart busyEntry 1 (1,9),[⟨.getBytes (busyEntry.entry.partKey 1),.ok (some [1,2,3])⟩],
      [(.cachePartReads,1),(.doKvGets,1),(.cacheRequestedBytes,8),(.cachePartHits,1),(.doKvRowsRead,1),
        (.cacheLoadedBytes,3),(.cacheErrors,1)],
      .error (cacheMessage "cached part is shorter than requested range")⟩,
    ⟨.readPart busyEntry 0 (0,1),[⟨.getBytes (busyEntry.entry.partKey 0),.ok none⟩],
      [(.cachePartReads,1),(.doKvGets,1),(.cacheRequestedBytes,1),(.cachePartMisses,1)],.ok none⟩,
    ⟨.readPart busyEntry 1 (0,1),[⟨.getBytes (busyEntry.entry.partKey 1),.error "storage is overloaded"⟩],
      [(.cachePartReads,1),(.doKvGets,1),(.cacheRequestedBytes,1),(.cacheErrors,1)],
      .error (cacheMessage "storage is overloaded")⟩,
    ⟨.delete busyEntry,[⟨.getHead busyEntry.entry.headKey,.error "storage is overloaded"⟩,
        ⟨.delete busyEntry.entry.headKey,.ok true⟩],
      [(.cacheHeadReads,1),(.doKvGets,1),(.cacheErrors,1),(.doKvDeletes,1),(.doKvRowsWritten,1)],.ok ()⟩,
    ⟨.isPopulated,[⟨.list CACHE_PREFIX 1,.ok (1 : ℕ)⟩],[(.doKvLists,1),(.doKvRowsRead,1)],.ok true⟩]

theorem busy_returns : ∀ p ∈ busy, Returns (p.call.prog 32) p.replies p.outputs p.outcome := by
  simp only [busy, List.forall_mem_cons]
  refine ⟨?_,?_,?_,?_,?_,?_,?_,?_,?_,?_,by simp⟩
  · exact .emit (.call (.emit (.emit (.refl _))))
  · exact .emit (.call (.emit (.emit (.emit (.refl _)))))
  · exact .emit (.call (.emit (.refl _)))
  · exact .emit (.emit (.call (.emit (.emit (.refl _)))))
  · exact .emit (.emit (.emit (.call (.emit (.emit (.emit (.emit (.refl _))))))))
  · exact .emit (.emit (.emit (.call (.emit (.emit (.emit (.emit (.refl _))))))))
  · exact .emit (.emit (.emit (.call (.emit (.refl _)))))
  · exact .emit (.emit (.emit (.call (.emit (.refl _)))))
  · exact .emit (.emit (.call (.emit (.emit (.call (.emit (.refl _)))))))
  · exact .emit (.call (.emit (.refl _)))

theorem cache_counters_conserved_busy :
    Conserved ((increments busy).foldl fetchAdd fun _ => 0) ⟨1,1,1,1,1⟩ := by
  refine cache_counters_conserved (counted_of_returns busy_returns) fun c => ?_
  cases c <;> decide

end Busy

end SlatedbCloudflare.DoCache
