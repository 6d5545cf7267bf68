import SlatedbCloudflare.Library.Programs
import SlatedbCloudflare.Library.Traversals
import SlatedbCloudflare.Platform.Storage
import SlatedbCloudflare.DurableObject.Perf

/-! # The cache in Durable Object storage

`DoCacheStorage` keeps the heads and parts of cached objects under string keys.
`usize` has a width of its own: the Durable Object runs on 32-bit WebAssembly.
-/
namespace SlatedbCloudflare.DoCache
open Programs Traversals ObjectStore Storage Perf

/-- The serializable form that SlateDB gives to the head of an object. -/
structure LocalCacheHead where
  Head : Type
  Attributes : Type
  ofMeta : ObjectMeta → Attributes → Head
  metadata : Head → ObjectMeta
  attributes : Head → Attributes
  size_ofMeta : ∀ m a, (metadata (ofMeta m a)).size = m.size

def STORE : String := "cloudflare-do-cache"
def CACHE_PREFIX : String := "slatedb-cache:"

abbrev CacheM (L : LocalCacheHead) (ε α : Type) := Prog (Storage.Request L.Head) Storage.Reply Increment ε α

def cacheMessage (message : String) : Error := .generic STORE message

def rangeLen (range : ℕ × ℕ) : ℕ := range.2 - range.1

def slice (bytes : Bytes) (range : ℕ × ℕ) : Bytes := (bytes.drop range.1).take (rangeLen range)

/-- `get` on a byte string: whether the range lies within it. -/
def Fits (bytes : Bytes) (range : ℕ × ℕ) : Prop := range.1 ≤ range.2 ∧ range.2 ≤ bytes.length

instance (bytes : Bytes) (range : ℕ × ℕ) : Decidable (Fits bytes range) :=
  inferInstanceAs (Decidable (_ ∧ _))

def entryPrefix (location : Path) (partSize : ℕ) : String :=
  CACHE_PREFIX ++ toString partSize ++ ":" ++ toString location.raw.utf8ByteSize ++ ":" ++
    location.raw ++ ":"

structure DoCacheEntry where
  keyPrefix : String
  partSize : ℕ

/-- `DoCacheStorage::entry` -/
def entry (location : Path) (partSize : ℕ) : DoCacheEntry := ⟨entryPrefix location partSize,partSize⟩

namespace DoCacheEntry

def headKey (e : DoCacheEntry) : String := e.keyPrefix ++ "head"
def partKey (e : DoCacheEntry) (partNumber : ℕ) : String := e.keyPrefix ++ "part:" ++ toString partNumber

end DoCacheEntry

def divCeil (a b : ℕ) : ℕ := if a % b = 0 then a / b else a / b + 1

section Entries
variable {L : LocalCacheHead}

def increment {ε : Type} (counter : PerfCounter) (value : ℕ) : CacheM L ε Unit := Prog.tell (counter,value)

def savePart (e : DoCacheEntry) (partNumber : ℕ) (bytes : Bytes) : CacheM L Error Unit := do
  increment .doKvPuts 1
  let result : Except String Unit ← Prog.ask (Storage.Request.put (e.partKey partNumber) (.bytes bytes))
  match result with
  | .ok () => do
    increment .doKvRowsWritten 1
    increment .cachePartWrites 1
    increment .cacheWrittenBytes bytes.length
    pure ()
  | .error error => do
    increment .cacheErrors 1
    .err (cacheMessage error)

def cachedRange (bytes : Bytes) (range : ℕ × ℕ) : CacheM L Error (Option Bytes) :=
  if Fits bytes range then do
    increment .cacheReturnedBytes (rangeLen range)
    pure (some (slice bytes range))
  else do
    increment .cacheErrors 1
    .err (cacheMessage "cached part is shorter than requested range")

def readPart (e : DoCacheEntry) (partNumber : ℕ) (rangeInPart : ℕ × ℕ) :
    CacheM L Error (Option Bytes) := do
  increment .cachePartReads 1
  increment .doKvGets 1
  increment .cacheRequestedBytes (rangeLen rangeInPart)
  let loaded : Except String (Option Bytes) ← Prog.ask (Storage.Request.getBytes (e.partKey partNumber))
  match loaded with
  | .error error => do
    increment .cacheErrors 1
    .err (cacheMessage error)
  | .ok none => do
    increment .cachePartMisses 1
    pure none
  | .ok (some bytes) => do
    increment .cachePartHits 1
    increment .doKvRowsRead 1
    increment .cacheLoadedBytes bytes.length
    cachedRange bytes rangeInPart

def saveHead (e : DoCacheEntry) (m : ObjectMeta) (attributes : L.Attributes) : CacheM L Error Unit := do
  increment .doKvPuts 1
  let result : Except String Unit ←
    Prog.ask (Storage.Request.put e.headKey (.head (L.ofMeta m attributes)))
  match result with
  | .ok () => do
    increment .doKvRowsWritten 1
    increment .cacheHeadWrites 1
    pure ()
  | .error error => do
    increment .cacheErrors 1
    .err (cacheMessage error)

def readHead (e : DoCacheEntry) : CacheM L Error (Option (ObjectMeta × L.Attributes)) := do
  increment .cacheHeadReads 1
  increment .doKvGets 1
  let result : Except String (Option L.Head) ← Prog.ask (Storage.Request.getHead e.headKey)
  match result with
  | .ok (some head) => do
    increment .cacheHeadHits 1
    increment .doKvRowsRead 1
    pure (some (L.metadata head,L.attributes head))
  | .ok none => do
    increment .cacheHeadMisses 1
    pure none
  | .error error => do
    increment .cacheErrors 1
    .err (cacheMessage error)

/-- The loop over the chunks of part keys. -/
def deleteChunks : List (List String) → CacheM L Error Unit
  | [] => pure ()
  | chunk :: rest => do
    increment .doKvDeletes chunk.length
    let result : Except String ℕ ← Prog.ask (Storage.Request.deleteMultiple chunk)
    match result with
    | .ok deleted => do
      increment .doKvRowsWritten deleted
      deleteChunks rest
    | .error _ => deleteChunks rest

/-- The number of parts, cast to `usize`. -/
def partCount (usizeBits size partSize : ℕ) : ℕ := divCeil size partSize % 2 ^ usizeBits

def partKeys (usizeBits : ℕ) (e : DoCacheEntry) (size : ℕ) : List String :=
  (List.range (partCount usizeBits size e.partSize)).map e.partKey

/-- The end of `delete`: the parts of the head that was read. -/
def deleteParts (usizeBits : ℕ) (e : DoCacheEntry) (head : Option (ObjectMeta × L.Attributes)) :
    CacheM L Error Unit :=
  match head with
  | some (m,_) => deleteChunks (chunks 128 (partKeys usizeBits e m.size))
  | none => pure ()

def delete (usizeBits : ℕ) (e : DoCacheEntry) : CacheM L Error Unit := do
  let head ← (readHead e).recover (fun _ : Error => pure none)
  increment .doKvDeletes 1
  let result : Except String Bool ← Prog.ask (Storage.Request.delete e.headKey)
  match result with
  | .ok deleted => do
    increment .doKvRowsWritten deleted.toNat
    deleteParts usizeBits e head
  | .error _ => deleteParts usizeBits e head

def clear : CacheM L String Unit := do
  increment .doKvDeleteAlls 1
  Prog.orElse (← Prog.ask Storage.Request.deleteAll) .err

def isPopulated : CacheM L String Bool := do
  increment .doKvLists 1
  let entries : ℕ ← Prog.orElse (← Prog.ask (Storage.Request.list CACHE_PREFIX 1)) .err
  increment .doKvRowsRead entries
  pure (entries ≠ 0)

end Entries

end SlatedbCloudflare.DoCache
