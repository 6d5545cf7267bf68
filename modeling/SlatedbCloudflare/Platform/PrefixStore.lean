import SlatedbCloudflare.Library.Programs
import SlatedbCloudflare.Platform.Path

/-! # Stores, and the part of a store below a path

`PrefixStore` of the crate turns a store into the part of it below a root: it
prepends the root to the locations it is given, and takes it away from those the
store returns. Listing streams are read to their end.
-/
namespace SlatedbCloudflare.ObjectStore
open Programs Segments

namespace Path

/-- The segments of `p`, then those of `q`. -/
def append (p q : Path) : Path :=
  join (p.segments ++ q.segments) fun s hs =>
    (List.mem_append.mp hs).elim (segments_valid p s) (segments_valid q s)

/-- Without the segments of `root`, where the path begins with them. -/
def strip (root p : Path) : Path :=
  if root.segments <+: p.segments then
    join (p.segments.drop root.segments.length) fun s hs => segments_valid p s (List.mem_of_mem_drop hs)
  else p

variable {p q : Path}

theorem append_root (h : q.raw = "") : p.append q = p := by
  apply segments_inj
  rw [append, segments_join, segments_root h, List.append_nil]

theorem toList_append (hp : p.raw ≠ "") (hq : q.raw ≠ "") :
    (p.append q).raw.toList = p.raw.toList ++ '/' :: q.raw.toList := by
  rw [toList_raw, append, segments_join, intercalate_append (segments_ne_nil hp) (segments_ne_nil hq),
    ← toList_raw, ← toList_raw]

end Path

structure Store (Req : Type) (Resp : Req → Type) (Out : Type) where
  putOpts : Path → List Bytes → PutMode → Prog Req Resp Out Error PutResult
  getOpts : Path → GetOptions → Prog Req Resp Out Error GetResult
  delete : Path → Prog Req Resp Out Error Path
  list : Option Path → Prog Req Resp Out Error (Option (List ObjectMeta))
  listWithDelimiter : Option Path → Prog Req Resp Out Error (Option ListResult)
  copyOpts : Path → Path → CopyMode → Prog Req Resp Out Error Unit

inductive ObjectStoreCall
  | put (location : Path) (payload : List Bytes) (mode : PutMode)
  | get (location : Path) (options : GetOptions)
  | delete (location : Path)
  | list (keyPrefix : Option Path)
  | listWithDelimiter (keyPrefix : Option Path)
  | copy (source target : Path) (mode : CopyMode)

inductive ObjectStoreResult
  | put (result : PutResult)
  | got (result : GetResult)
  | deleted (location : Path)
  | listed (items : Option (List ObjectMeta))
  | level (result : Option ListResult)
  | copied

variable {Req : Type} {Resp : Req → Type} {Out : Type}

def Store.run (S : Store Req Resp Out) : ObjectStoreCall → Prog Req Resp Out Error ObjectStoreResult
  | .put location payload mode => S.putOpts location payload mode >>= fun result => pure (.put result)
  | .get location options => S.getOpts location options >>= fun result => pure (.got result)
  | .delete location => S.delete location >>= fun location => pure (.deleted location)
  | .list keyPrefix => S.list keyPrefix >>= fun items => pure (.listed items)
  | .listWithDelimiter keyPrefix => S.listWithDelimiter keyPrefix >>= fun result => pure (.level result)
  | .copy source target mode => S.copyOpts source target mode >>= fun _ => pure .copied

namespace PrefixStore
variable (root : Path)

def fullPath (location : Path) : Path := root.append location

def stripMeta (m : ObjectMeta) : ObjectMeta := { m with location := root.strip m.location }

/-- `PrefixStore::new` -/
def new (inner : Store Req Resp Out) : Store Req Resp Out where
  putOpts location := inner.putOpts (fullPath root location)
  getOpts location options := do
    let result ← inner.getOpts (fullPath root location) options
    pure { result with metadata := stripMeta root result.metadata }
  delete location := do
    let location ← inner.delete (fullPath root location)
    pure (root.strip location)
  list keyPrefix := do
    let items ← inner.list (some (fullPath root (keyPrefix.getD Path.root)))
    pure (items.map (List.map (stripMeta root)))
  listWithDelimiter keyPrefix := do
    let result ← inner.listWithDelimiter (some (fullPath root (keyPrefix.getD Path.root)))
    pure (result.map (fun r => ⟨r.commonPrefixes.map root.strip,r.objects.map (stripMeta root)⟩))
  copyOpts source target := inner.copyOpts (fullPath root source) (fullPath root target)

end PrefixStore

/-- The calls that list everything below the root. -/
def ObjectStoreCall.ListsRoot : ObjectStoreCall → Prop
  | .list keyPrefix | .listWithDelimiter keyPrefix => (keyPrefix.getD Path.root).raw = ""
  | _ => False

end SlatedbCloudflare.ObjectStore
