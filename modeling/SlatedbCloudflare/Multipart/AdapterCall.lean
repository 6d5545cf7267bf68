import SlatedbCloudflare.DurableObject.R2Store
import SlatedbCloudflare.DurableObject.Multipart
import SlatedbCloudflare.DurableObject.Listing
import SlatedbCloudflare.Container.Multipart

/-! # The calls that SlateDB makes on a store

All calls of both adapters as programs of one kind, their results left out.
-/
namespace SlatedbCloudflare
open Programs ObjectStore Http Multipart

/-- A call on a store, on one of its upload handles, or for a page of a listing. -/
inductive AdapterCall
  | put (location : Path) (payload : List Bytes) (mode : PutMode)
  | get (location : Path) (options : GetOptions)
  | listPage (keyPrefix cursor delimiter : Option String)
  | delete (location : Path)
  | start (location : Path)
  | putPart (h : Handle) (data : List Bytes)
  | complete (h : Handle)
  | abort (h : Handle)

def AdapterCall.location : AdapterCall → Option Path
  | .put location _ _ | .get location _ | .delete location | .start location => some location
  | .listPage _ _ _ => none
  | .putPart h _ | .complete h | .abort h => some h.location

def R2Store.run (E : PathEncoding) (lib : Crate) : AdapterCall → R2UploadM Unit
  | .put location payload mode => onStore (putOpts location payload mode >>= fun _ => pure ())
  | .get location options => onStore (getInner lib location options >>= fun _ => pure ())
  | .listPage keyPrefix cursor delimiter =>
    onStore (listPage E lib keyPrefix cursor delimiter >>= fun _ => pure ())
  | .delete location => onStore (R2Store.delete location >>= fun _ => pure ())
  | .start location => onStore (putMultipartOpts location >>= fun _ => pure ())
  | .putPart h data => (multipartUpload.putPart h data).2
  | .complete h => (multipartUpload.complete h).2 >>= fun _ => pure ()
  | .abort h => (multipartUpload.abort h).2

abbrev BindingStore.UploadReplies := List ((d : Demand Exchange) × Supply Answer d)

def BindingStore.run (F : Formats) (lib : Crate) : AdapterCall → BindingUploadM Unit
  | .put location payload mode => onStore (putOpts F location payload mode >>= fun _ => pure ())
  | .get location options => onStore (getOpts F lib location options >>= fun _ => pure ())
  | .listPage keyPrefix cursor delimiter =>
    onStore (listPage F keyPrefix cursor delimiter >>= fun _ => pure ())
  | .delete location => onStore (BindingStore.delete F location >>= fun _ => pure ())
  | .start location => onStore (putMultipartOpts F location >>= fun _ => pure ())
  | .putPart h data => ((multipartUpload F).putPart h data).2
  | .complete h => ((multipartUpload F).complete h).2 >>= fun _ => pure ()
  | .abort h => ((multipartUpload F).abort h).2

end SlatedbCloudflare
