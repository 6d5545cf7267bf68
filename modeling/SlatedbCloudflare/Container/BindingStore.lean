import SlatedbCloudflare.Library.Programs
import SlatedbCloudflare.Platform.Http

/-! # The object store of the container

`BindingStore` answers SlateDB's object-store calls by HTTP requests to the R2
bridge. Listing streams and multipart uploads have modules of their own.
-/
namespace SlatedbCloudflare.BindingStore
open Programs ObjectStore R2 Http

/-- The fields of `BindingStoreCounters`. -/
inductive Counter
  | gets
  | heads
  | puts
  | lists
  | deletes
  | multipartUploads
  | multipartParts
  | multipartCompletes
  | readBytes
  | writtenBytes
  | errors
  deriving DecidableEq

/-- The counters with the names that `snapshot` reports them under. -/
def counterNames : List (String × Counter) :=
  [("r2Gets",.gets),("r2Heads",.heads),("r2Puts",.puts),("r2Lists",.lists),("r2Deletes",.deletes),
    ("r2MultipartUploads",.multipartUploads),("r2MultipartParts",.multipartParts),
    ("r2MultipartCompletes",.multipartCompletes),("r2ReadBytes",.readBytes),("r2WrittenBytes",.writtenBytes),
    ("r2Errors",.errors)]

def snapshot (counters : Counter → ℕ) : List (String × ℕ) := counterNames.map (Prod.map id counters)

/-- What the HTTP client waits for: the head of a response, and its body. -/
inductive Exchange
  | send (request : HttpRequest)
  | receive (body : Body)

abbrev Arrival : Exchange → Type
  | .send _ => HttpResponse
  | .receive _ => Body

abbrev Answer (q : Exchange) := Except String (Arrival q)

abbrev BindingM (α : Type) := Prog Exchange Answer (Counter × ℕ) Error α

def STORE : String := "cloudflare-r2-binding"

def generic (error : String) : Error := .generic STORE error

def increment (counter : Counter) (value : ℕ) : BindingM Unit := Prog.tell (counter,value)

def failed {α : Type} (error : String) : BindingM α := do
  increment .errors 1
  .err (generic error)

def request (method : Method) (location : Path) : HttpRequest :=
  ⟨method,[("x-slate-path",location.raw)],[],.bytes []⟩

def withHeader (r : HttpRequest) (name value : String) : HttpRequest :=
  { r with headers := r.headers ++ [(name,value)] }

/-- `send()`, with `failed` as its `map_err`. A request with a malformed header
is not sent. -/
def send (F : Formats) (r : HttpRequest) : BindingM HttpResponse :=
  if r.headers.all (fun h => F.isHeaderValue h.2) then do
    Prog.orElse (← Prog.ask (.send r)) failed
  else failed "builder error"

def receive (body : Body) : BindingM Body := do
  Prog.orElse (← Prog.ask (.receive body)) (fun error => .err (generic error))

def statusText (status : ℕ) : String :=
  match status with
  | 304 => "304 Not Modified"
  | 400 => "400 Bad Request"
  | 404 => "404 Not Found"
  | 405 => "405 Method Not Allowed"
  | 412 => "412 Precondition Failed"
  | 500 => "500 Internal Server Error"
  | _ => toString status

section Responses
variable (F : Formats)

def isSuccess (status : ℕ) : Bool := 200 ≤ status && status < 300

def checkResponse (response : HttpResponse) : BindingM HttpResponse :=
  if isSuccess response.status then pure response
  else do
    let body : Except String Body ← Prog.ask (Exchange.receive response.body)
    let detail := match body with
      | .ok body => body.toText F
      | .error _ => ""
    .err (generic ("R2 binding bridge returned " ++ statusText response.status ++ ": " ++ detail))

/-- `json()`, up to the conversion to the expected type. -/
def receiveJson {α : Type} (response : HttpResponse) (decode : Json → Option α) : BindingM α := do
  let body ← receive response.body
  let document ← Prog.orElse (body.toJson F) (fun error => .err (generic error))
  match decode document with
  | some value => pure value
  | none => .err (generic "error decoding response body")

def headerValue (response : HttpResponse) (name : String) : Except Error (Option String) :=
  match response.header name with
  | none => .ok none
  | some value =>
    if isHeaderText value then .ok (some value)
    else .error (generic "failed to convert header to a str")

def requiredHeader (response : HttpResponse) (name : String) : Except Error String :=
  match response.header name with
  | none => .error (generic ("missing " ++ name ++ " header"))
  | some value =>
    if isHeaderText value then .ok value
    else .error (generic "failed to convert header to a str")

def parseU64 (s : String) : Except String ℕ :=
  let digits := if s.toList.head? = some '+' then s.toList.tail else s.toList
  if s = "" then .error "cannot parse integer from empty string"
  else if digits ≠ [] ∧ digits.all Char.isDigit = true then
    let n := Nat.ofDigitChars 10 digits 0
    if n < 2 ^ 64 then .ok n else .error "number too large to fit in target type"
  else .error "invalid digit found in string"

def putResult (response : HttpResponse) : Except Error PutResult := do
  let eTag ← headerValue response "etag"
  let version ← headerValue response "x-slate-version"
  pure { eTag, version }

def objectMeta (location : Path) (response : HttpResponse) : Except Error ObjectMeta := do
  let size ← (parseU64 (← requiredHeader response "x-slate-size")).mapError generic
  let lastModified ← (F.parseDate (← requiredHeader response "x-slate-uploaded")).mapError generic
  let eTag ← headerValue response "etag"
  let version ← headerValue response "x-slate-version"
  pure { location, lastModified, size, eTag, version }

end Responses

structure ListObject where
  key : String
  size : ℕ
  etag : String
  version : String
  uploaded : DateTime

structure ListPage where
  objects : List ListObject
  prefixes : List String
  cursor : Option String

def asUnsigned (width : ℕ) (j : Json) : Option ℕ := j.asNum.filter (fun n => n < 2 ^ width)

def ListObject.ofJson (F : Formats) (j : Json) : Option ListObject := do
  let key ← (← j.field "key").asStr
  let size ← asUnsigned 64 (← j.field "size")
  let etag ← (← j.field "etag").asStr
  let version ← (← j.field "version").asStr
  let uploaded ← (F.parseDate (← (← j.field "uploaded").asStr)).toOption
  pure { key, size, etag, version, uploaded }

/-- Missing prefixes are the empty list, a missing cursor is none. -/
def ListPage.ofJson (F : Formats) (j : Json) : Option ListPage := do
  let objects ← (← (← j.field "objects").asArr).mapM (ListObject.ofJson F)
  let prefixes ← match j.field "prefixes" with
    | some prefixes => prefixes.asArr >>= List.mapM Json.asStr
    | none => some []
  let cursor ← match j.field "cursor" with
    | some cursor => cursor.asStr.map some
    | none => some none
  pure { objects, prefixes, cursor }

def multipartPart (j : Json) : Option (ℕ × String) := do
  let partNumber ← asUnsigned 16 (← j.field "partNumber")
  let etag ← (← j.field "etag").asStr
  pure (partNumber,etag)

def multipartStarted (j : Json) : Option String := do
  (← j.field "uploadId").asStr

def rangeHeader (lib : Crate) (range : GetRange) : Except Error String :=
  match lib.isValid range with
  | .error error => .error (generic error)
  | .ok () => .ok (match range with
    | .bounded start stop => "bytes=" ++ toString start ++ "-" ++ toString (stop - 1)
    | .offset start => "bytes=" ++ toString start ++ "-"
    | .suffix length => "bytes=-" ++ toString length)

def returnedRange (lib : Crate) (range : Option GetRange) (size : ℕ) : Except Error (ℕ × ℕ) :=
  match range with
  | some range => (lib.asRange range size).mapError generic
  | none => .ok (0,size)

section Store
variable (F : Formats) (lib : Crate)

def listRequest (query : List (String × String)) : HttpRequest :=
  ⟨.get,[("x-slate-operation","list")],query,.bytes []⟩

def listQuery (keyPrefix cursor delimiter : Option String) : List (String × String) :=
  (keyPrefix.map (fun value => ("prefix",value))).toList ++
    (cursor.map (fun value => ("cursor",value))).toList ++
    (delimiter.map (fun value => ("delimiter",value))).toList

def listPage (keyPrefix cursor delimiter : Option String) : BindingM ListPage := do
  increment .lists 1
  let response ← send F (listRequest (listQuery keyPrefix cursor delimiter))
  let response ← checkResponse F response
  receiveJson F response (ListPage.ofJson F)

def ListObject.intoMeta (o : ListObject) : Except Error ObjectMeta := do
  let location ← (lib.parse o.key).mapError generic
  pure { location, lastModified := o.uploaded, size := o.size, eTag := some o.etag,
         version := some o.version }

def putRequest (location : Path) : PutMode → Except Error HttpRequest
  | .overwrite => .ok (request .put location)
  | .create => .ok (withHeader (request .put location) "if-none-match" "*")
  | .update version => match version.eTag with
    | none => .error (.notSupported "R2 conditional update requires an ETag")
    | some etag => .ok (withHeader (request .put location) "if-match" etag)

def failedPutPrecondition (location : Path) : PutMode → Error
  | .create => .alreadyExists location.raw "R2 create precondition failed"
  | _ => .precondition location.raw "R2 update precondition failed"

def putOpts (location : Path) (payload : List Bytes) (mode : PutMode) : BindingM PutResult := do
  increment .puts 1
  let request ← Prog.orElse (putRequest location mode) .err
  let response ← send F { request with body := .bytes payload.flatten }
  if response.status = 412 then do
    increment .errors 1
    .err (failedPutPrecondition location mode)
  else do
    let response ← checkResponse F response
    increment .writtenBytes payload.flatten.length
    Prog.orElse (putResult response) .err

def partsJson (parts : List (ℕ × String)) : Json :=
  .arr (parts.map (fun part => .obj [("partNumber",.num part.1),("etag",.str part.2)]))

def completeRequest (location : Path) (uploadId : String) (body : Body) : HttpRequest :=
  { withHeader (withHeader (request .post location) "x-slate-operation" "multipart-complete")
      "x-slate-upload-id" uploadId with body := body }

/-- The request of `BindingMultipartUpload::complete` and its result. -/
def completeParts (location : Path) (uploadId : String) (parts : List (ℕ × String)) :
    BindingM PutResult := do
  let response ← send F (completeRequest location uploadId (.json (partsJson parts)))
  let response ← checkResponse F response
  increment .multipartCompletes 1
  Prog.orElse (putResult response) .err

/-- A date in a header. RFC 2822 has no form for a date outside the years 0 to 9999. -/
def dateHeader (name : String) : Option DateTime → Except Error Headers
  | none => .ok []
  | some date => match F.toRfc2822 date with
    | some text => .ok [(name,text)]
    | none => .error (.panicked "writing rfc2822 datetime to string should never fail")

def rangeHeaders : Option GetRange → Except Error Headers
  | none => .ok []
  | some range => (rangeHeader lib range).map (fun text => [("range",text)])

/-- The headers of a read, in the order in which they are added. -/
def readHeaders (options : GetOptions) : Except Error Headers := do
  let modifiedSince ← dateHeader F "if-modified-since" options.ifModifiedSince
  let unmodifiedSince ← dateHeader F "if-unmodified-since" options.ifUnmodifiedSince
  let range ← rangeHeaders lib options.range
  pure ((options.ifMatch.map (fun value => ("if-match",value))).toList ++
    (options.ifNoneMatch.map (fun value => ("if-none-match",value))).toList ++
    modifiedSince ++ unmodifiedSince ++ range)

def readRequest (location : Path) (head : Bool) (headers : Headers) : HttpRequest :=
  let base := request (if head then .head else .get) location
  { base with headers := base.headers ++ headers }

def readRefused (location : Path) (status : ℕ) : Option Error :=
  if status = 404 then some (.notFound location.raw "R2 object not found")
  else if status = 412 then some (.precondition location.raw "R2 read precondition failed")
  else if status = 304 then some (.notModified location.raw "R2 object was not modified")
  else none

def getOpts (location : Path) (options : GetOptions) : BindingM GetResult := do
  increment (if options.head then .heads else .gets) 1
  if options.version.isSome then
    .err (.notSupported "R2 Workers bindings do not expose versioned GET")
  else do
    let headers ← Prog.orElse (readHeaders F lib options) .err
    let response ← send F (readRequest location options.head headers)
    match readRefused location response.status with
    | some error => .err error
    | none => do
      let response ← checkResponse F response
      let metadata ← Prog.orElse (objectMeta F location response) .err
      Prog.orElse (lib.checkPreconditions options metadata) .err
      let range ← Prog.orElse (returnedRange lib options.range metadata.size) .err
      pure { payload := if options.head then [] else response.body.arrayBuffer F, metadata, range }

/-- Reading the stream of a result to its end. -/
def collect (result : GetResult) : BindingM Bytes := do
  let body ← receive (.bytes result.payload)
  increment .readBytes (body.arrayBuffer F).length
  pure (body.arrayBuffer F)

def copyMode : CopyMode → PutMode
  | .overwrite => .overwrite
  | .create => .create

def copyOpts (source target : Path) (mode : CopyMode) : BindingM Unit := do
  let got ← getOpts F lib source {}
  let bytes ← collect F got
  let _ ← putOpts F target [bytes] (copyMode mode)
  pure ()

/-- What `delete_stream` does for each location. -/
def delete (location : Path) : BindingM Path := do
  increment .deletes 1
  let response ← send F (request .delete location)
  let _ ← checkResponse F response
  pure location

end Store

section Evaluation
variable {F : Formats} {answer : (q : Exchange) → Answer q} {response : HttpResponse}

theorem increment_eval {α : Type} (counter : Counter) (value : ℕ) (f : Unit → BindingM α) :
    (increment counter value >>= f).eval answer = (f ()).eval answer := rfl

theorem send_eval {r : HttpRequest} (hsent : r.headers.all (fun h => F.isHeaderValue h.2) = true)
    (h : answer (.send r) = .ok response) : (send F r).eval answer = .ok response := by
  rw [send, if_pos hsent]
  change (Prog.orElse (answer (.send r)) failed).eval answer = _
  rw [h]
  rfl

theorem checkResponse_eval (h : isSuccess response.status = true) :
    (checkResponse F response).eval answer = .ok response := by
  rw [checkResponse, if_pos h]
  rfl

theorem receiveJson_eval {α : Type} {decode : Json → Option α} {j : Json} {a : α}
    (h : answer (.receive response.body) = .ok (.json j)) (hj : decode j = some a) :
    (receiveJson F response decode).eval answer = .ok a := by
  have hreceive : (receive response.body).eval answer = .ok (.json j) := by
    change (Prog.orElse (answer (.receive response.body)) _).eval answer = _
    rw [h]
    rfl
  rw [receiveJson, Prog.eval_bind_ok hreceive]
  simp [Body.toJson, hj]

theorem send_answered {r : HttpRequest} (hsent : r.headers.all (fun h => F.isHeaderValue h.2) = true)
    (response : HttpResponse) : Returns (send F r) [⟨.send r,.ok response⟩] [] (.ok response) := by
  rw [send, if_pos hsent]
  exact .call (.refl _)

theorem checkResponse_passes (h : isSuccess response.status = true) :
    Returns (checkResponse F response) [] [] (.ok response) := by
  rw [checkResponse, if_pos h]
  exact .refl _

theorem receiveJson_decodes {α : Type} {decode : Json → Option α} {j : Json} {a : α}
    (hj : decode j = some a) : Returns (receiveJson F response decode)
      [⟨.receive response.body,.ok (.json j)⟩] [] (.ok a) := by
  have hreceive : Returns (receive response.body) [⟨.receive response.body,.ok (.json j)⟩] [] (.ok (.json j)) :=
    .call (.refl _)
  refine hreceive.bind_result ?_
  simp only [Body.toJson, Prog.orElse_ok, Prog.ok_bind, hj]
  rfl

end Evaluation

end SlatedbCloudflare.BindingStore
