import SlatedbCloudflare.Library.Programs
import SlatedbCloudflare.Platform.R2
import SlatedbCloudflare.DurableObject.Perf

/-! # The object store of the Durable Object: single objects

`R2Store` answers SlateDB's object-store calls by requests on the R2 binding.
Listing and multipart uploads have modules of their own.
-/
namespace SlatedbCloudflare.R2Store
open Programs ObjectStore R2 Perf

abbrev R2M (α : Type) := Prog Request Reply Increment Error α

def STORE : String := "cloudflare-r2"

def generic (error : String) : Error := .generic STORE error

def increment (counter : PerfCounter) (value : ℕ) : R2M Unit := Prog.tell (counter,value)

/-- The closures that count a failed R2 call before turning it into an error. -/
def r2Failed {α : Type} (error : String) : R2M α := do
  increment .r2Errors 1
  .err (generic error)

/-- A request on the bucket, with `r2Failed` as its `map_err`. -/
def r2 (r : Request) : R2M (Value r) := do
  Prog.orElse (← Prog.ask r) r2Failed

def key (path : Path) : String := path.raw

def bucket : R2M Unit := do
  Prog.orElse (← Prog.ask .bucket) (fun error => .err (generic error))

def putConditional : PutMode → Except Error (Option Conditional)
  | .overwrite => .ok none
  | .create => .ok (some { etagDoesNotMatch := some "*" })
  | .update version =>
    if version.version.isSome && version.eTag.isNone then
      .error (.notSupported "R2 conditional update requires an ETag")
    else
      .ok (some { etagMatches := version.eTag })

def failedPutPrecondition (location : Path) : PutMode → Error
  | .create => .alreadyExists location.raw "R2 create precondition failed"
  | _ => .precondition location.raw "R2 update precondition failed"

/-- A request without `only_if`, or with the given `Conditional`. -/
def onlyIf : Option Conditional → OnlyIf
  | none => .none
  | some conditional => .conditional conditional

def putBytes (location : Path) (bytes : Bytes) (mode : PutMode) : R2M PutResult := do
  increment .r2Puts 1
  bucket
  let conditional ← Prog.orElse (putConditional mode) .err
  let object : Option Object ← r2 (.put (key location) bytes (onlyIf conditional))
  match object with
  | none => .err (failedPutPrecondition location mode)
  | some object => do
    increment .r2WrittenBytes bytes.length
    pure { eTag := some object.etag.val, version := some object.version }

def collectPayload (payload : List Bytes) : Bytes :=
  payload.foldl (fun bytes chunk => bytes ++ chunk) []

def putOpts (location : Path) (payload : List Bytes) (mode : PutMode) : R2M PutResult :=
  putBytes location (collectPayload payload) mode

section Reads
variable (lib : Crate)

def objectMeta (location : Path) (object : Object) : ObjectMeta where
  location := location
  lastModified := (lib.fromTimestampMillis object.uploaded).getD 0
  size := object.size
  eTag := some object.etag.val
  version := some object.version

def toR2Range (range : GetRange) : Except Error Range :=
  match lib.isValid range with
  | .error error => .error (.generic STORE error)
  | .ok () => match range with
    | .bounded start stop => .ok (.offsetWithLength start (stop - start))
    | .offset start => .ok (.offsetToEnd start)
    | .suffix length => .ok (.suffix length)

def returnedRange (range : Option GetRange) (size : ℕ) : Except Error (ℕ × ℕ) :=
  match range with
  | some range => (lib.asRange range size).mapError (.generic STORE)
  | none => .ok (0,size)

def readConditional (options : GetOptions) : Conditional where
  etagMatches := options.ifMatch
  etagDoesNotMatch := options.ifNoneMatch
  uploadedBefore := options.ifUnmodifiedSince.map (fun date => asU64 (timestampMillis date))
  uploadedAfter := options.ifModifiedSince.map (fun date => asU64 (timestampMillis date))

def plainHead (options : GetOptions) : Bool :=
  options.head && options.range.isNone && options.ifMatch.isNone && options.ifNoneMatch.isNone &&
    options.ifModifiedSince.isNone && options.ifUnmodifiedSince.isNone

/-- The R2 read behind `getInner`: a `head`, or a `get` with its conditions and range. -/
def fetchObject (key : String) (options : GetOptions) : R2M (Option (Object × Option Bytes)) :=
  if plainHead options then do
    let object : Option Object ← r2 (.head key)
    pure (object.map (fun o => (o,none)))
  else do
    let conditional := readConditional options
    let condition := if conditional ≠ {} then OnlyIf.conditional conditional else .none
    let range ← match options.range with
      | some range => (Prog.orElse (toR2Range lib range) .err >>= fun r => pure (.range r) :
          R2M ReadRange)
      | none => pure .whole
    r2 (.get key condition range)

def getInner (location : Path) (options : GetOptions) : R2M GetResult := do
  increment (if options.head then .r2Heads else .r2Gets) 1
  if options.version.isSome then
    .err (.notSupported "R2 Workers bindings do not expose versioned GET")
  else do
    bucket
    match ← fetchObject lib (key location) options with
    | none => .err (.notFound location.raw "R2 object not found")
    | some (object,body) => do
      let metadata := objectMeta lib location object
      Prog.orElse (lib.checkPreconditions options metadata) .err
      let range ← Prog.orElse (returnedRange lib options.range metadata.size) .err
      if options.head then pure { payload := [], metadata, range }
      else match body with
        | none => .err (.precondition location.raw "R2 returned metadata without a body")
        | some body => do
          let bytes : Bytes ← r2 (.body body)
          increment .r2ReadBytes bytes.length
          pure { payload := bytes, metadata, range }

def copyMode : CopyMode → PutMode
  | .overwrite => .overwrite
  | .create => .create

def copyOpts (source target : Path) (mode : CopyMode) : R2M Unit := do
  let got ← getInner lib source {}
  let _ ← putOpts target [got.payload] (copyMode mode)
  pure ()

end Reads

/-- What `delete_stream` does for each location. -/
def delete (location : Path) : R2M Path := do
  increment .r2Deletes 1
  bucket
  let _ ← r2 (.delete (key location))
  pure location

theorem bucket_returns {tr : List ((r : Request) × Reply r)} {os : List Increment} {u : Unit}
    (h : Returns bucket tr os (.ok u)) : tr = [⟨.bucket,.ok ()⟩] := by
  obtain ⟨x,tr',rfl,hx⟩ := h.of_call
  rcases x with e | _
  · cases hx.of_err.2.2
  · rw [hx.of_ok.1]

theorem r2_returns {r : Request} {tr : List ((r : Request) × Reply r)} {os : List Increment}
    {v : Value r} (h : Returns (r2 r) tr os (.ok v)) : tr = [⟨r,.ok v⟩] := by
  obtain ⟨x,tr',rfl,hx⟩ := h.of_call
  rcases x with e | v'
  · obtain ⟨_,_,he⟩ := hx.of_emit
    cases he.of_err.2.2
  · obtain ⟨rfl,_,hv⟩ := hx.of_ok
    cases hv
    rfl

end SlatedbCloudflare.R2Store
