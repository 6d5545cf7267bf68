import SlatedbCloudflare.Library.Programs
import SlatedbCloudflare.Platform.Http

/-! # The R2 bridge of the Worker

`handleR2` decodes a request of the container, makes one call on the bucket and
encodes the outcome. An exception anywhere becomes a response of status 500.
-/
namespace SlatedbCloudflare.Bridge
open Programs ObjectStore R2 Http

abbrev WorkerM (α : Type) := Prog R2.Request R2.Reply String String α

/-- `await` on a method of the bucket. -/
def call (r : R2.Request) : WorkerM (Value r) := do
  Prog.orElse (← Prog.ask r) .err

/-- `new Response(null, { status, headers })` -/
def emptyResponse (status : ℕ) (headers : Headers := []) : HttpResponse := ⟨status,headers,.bytes []⟩

def textResponse (status : ℕ) (text : String) : HttpResponse := ⟨status,[],.text text⟩

/-- `Response.json` -/
def jsonResponse (j : Json) : HttpResponse := ⟨200,[],.json j⟩

section Handlers
variable (F : Formats)

def objectHeaders (object : Object) : Headers :=
  [("etag",object.httpEtag),("x-slate-version",object.version),
    ("x-slate-size",toString object.size),("x-slate-uploaded",F.toISOString object.uploaded)]

/-- An object as the response of status 200 to `HEAD`, `PUT` and multipart completion. -/
def objectResponse (object : Object) : HttpResponse := emptyResponse 200 (objectHeaders F object)

def objectPath (request : HttpRequest) : Except String String :=
  match request.header "x-slate-path" with
  | some path => if path = "" then .error "missing x-slate-path" else .ok path
  | none => .error "missing x-slate-path"

/-- The upload id, unless the header is missing or empty. -/
def uploadId (request : HttpRequest) : Option String :=
  (request.header "x-slate-upload-id").filter (fun id => id ≠ "")

def listedObject (object : Object) : Json :=
  .obj [("key",.str object.key),("size",.num object.size),("etag",.str object.httpEtag),
    ("version",.str object.version),("uploaded",.str (F.toISOString object.uploaded))]

def listedPage (result : Objects) : Json :=
  .obj ([("objects",.arr (result.objects.map (listedObject F))),
    ("prefixes",.arr (result.delimitedPrefixes.map .str))] ++
    ((if result.truncated then result.cursor else none).map (fun cursor => ("cursor",.str cursor))).toList)

def handleList (request : HttpRequest) : WorkerM HttpResponse := do
  let result : Objects ← call (.list (request.query.lookup "prefix") (request.query.lookup "cursor")
    (request.query.lookup "delimiter"))
  pure (jsonResponse (listedPage F result))

def handleStart (key : String) : WorkerM HttpResponse := do
  let id : String ← call (.createMultipartUpload key)
  pure (jsonResponse (.obj [("uploadId",.str id)]))

def handlePart (key : String) (request : HttpRequest) : WorkerM HttpResponse :=
  match uploadId request, F.number (request.header "x-slate-part-number") with
  | some id, some partNumber => do
    call (.resumeMultipartUpload key id)
    let part : ℕ × String ← call (.uploadPart key id partNumber (request.body.arrayBuffer F))
    pure (jsonResponse (.obj [("partNumber",.num part.1),("etag",.str part.2)]))
  | _, _ => pure (textResponse 400 "invalid multipart part")

def multipartParts (j : Json) : Option (List (ℕ × String)) := do
  (← j.asArr).mapM (fun part => do
    pure (← (← part.field "partNumber").asNum,← (← part.field "etag").asStr))

def handleComplete (key : String) (request : HttpRequest) : WorkerM HttpResponse :=
  match uploadId request with
  | none => pure (textResponse 400 "missing upload id")
  | some id => do
    let document ← Prog.orElse (request.body.toJson F) .err
    match multipartParts document with
    | none => .err "invalid multipart parts"
    | some parts => do
      call (.resumeMultipartUpload key id)
      let object : Object ← call (.completeMultipartUpload key id parts)
      pure (objectResponse F object)

def handleAbort (key : String) (request : HttpRequest) : WorkerM HttpResponse :=
  match uploadId request with
  | none => pure (textResponse 400 "missing upload id")
  | some id => do
    call (.resumeMultipartUpload key id)
    call (.abortMultipartUpload key id)
    pure (emptyResponse 204)

def headResponse : Option Object → HttpResponse
  | some object => objectResponse F object
  | none => emptyResponse 404

def handleHead (key : String) : WorkerM HttpResponse := do
  let object : Option Object ← call (.head key)
  pure (headResponse F object)

def getResponse (request : HttpRequest) : Option (Object × Option Bytes) → HttpResponse
  | none => emptyResponse 404
  | some (object,none) =>
    let notModified := (request.header "if-none-match").isSome ||
      (request.header "if-modified-since").isSome
    emptyResponse (if notModified then 304 else 412) (objectHeaders F object)
  | some (object,some body) => ⟨200,objectHeaders F object,.bytes body⟩

def handleGet (key : String) (request : HttpRequest) : WorkerM HttpResponse := do
  let object : Option (Object × Option Bytes) ←
    call (.get key (.headers request.headers) (.headers request.headers))
  pure (getResponse F request object)

def putResponse : Option Object → HttpResponse
  | some object => objectResponse F object
  | none => emptyResponse 412

def handlePut (key : String) (request : HttpRequest) : WorkerM HttpResponse := do
  let object : Option Object ←
    call (.put key (request.body.arrayBuffer F) (.headers request.headers))
  pure (putResponse F object)

def handleDelete (key : String) : WorkerM HttpResponse := do
  call (.delete key)
  pure (emptyResponse 204)

/-- The body of the `try` block of `handleR2`. -/
def dispatch (request : HttpRequest) : WorkerM HttpResponse := do
  let operation := (request.header "x-slate-operation").getD "object"
  if operation = "list" then handleList F request
  else do
    let key ← Prog.orElse (objectPath request) .err
    if operation = "multipart-start" then handleStart key
    else if operation = "multipart-part" then handlePart F key request
    else if operation = "multipart-complete" then handleComplete F key request
    else if operation = "multipart-abort" then handleAbort key request
    else match request.method with
      | .head => handleHead F key
      | .get => handleGet F key request
      | .put => handlePut F key request
      | .delete => handleDelete key
      | .post => pure (textResponse 405 "unsupported R2 bridge request")

def handleR2 (request : HttpRequest) : WorkerM HttpResponse :=
  (dispatch F request).recover (fun error => do
    Prog.tell ("R2 bridge failed " ++ error)
    pure (textResponse 500 error))

end Handlers

end SlatedbCloudflare.Bridge
