import SlatedbCloudflare.Container.BindingStore
import SlatedbCloudflare.Multipart.Handle

/-! # Multipart uploads of the container -/
namespace SlatedbCloudflare.BindingStore
open Programs ObjectStore R2 Http Multipart

abbrev BindingUploadM (α : Type) := UploadM Answer (Counter × ℕ) α

def multipartLockError : Error := generic "multipart state lock poisoned"

def partRequest (location : Path) (uploadId : String) (partNumber : ℕ) (body : Body) : HttpRequest :=
  { withHeader (withHeader (withHeader (request .put location) "x-slate-operation" "multipart-part")
      "x-slate-upload-id" uploadId) "x-slate-part-number" (toString partNumber) with body := body }

def abortRequest (location : Path) (uploadId : String) : HttpRequest :=
  withHeader (withHeader (request .delete location) "x-slate-operation" "multipart-abort")
    "x-slate-upload-id" uploadId

section
variable (F : Formats)

/-- Up to the point where the part has been uploaded. -/
def sendPart (location : Path) (uploadId : String) (partNumber : ℕ) (data : List Bytes) :
    BindingM (ℕ × String) := do
  let response ← send F (partRequest location uploadId partNumber (.bytes data.flatten))
  let response ← checkResponse F response
  let part ← receiveJson F response multipartPart
  increment .multipartParts 1
  increment .writtenBytes data.flatten.length
  pure part

def uploadPart (location : Path) (uploadId : String) (partNumber : ℕ) (data : List Bytes) :
    BindingUploadM Unit := do
  let part ← onStore (sendPart F location uploadId partNumber data)
  Prog.orElse (← Prog.ask (.push part)) (fun _ => .err multipartLockError)

def completeUpload (location : Path) (uploadId : String) : BindingUploadM PutResult := do
  let parts ← Prog.orElse (← Prog.ask .parts) (fun _ => .err multipartLockError)
  onStore (completeParts F location uploadId (sortParts parts))

def abortUpload (location : Path) (uploadId : String) : BindingUploadM Unit :=
  onStore (do
    let response ← send F (abortRequest location uploadId)
    let _ ← checkResponse F response
    pure ())

/-- `BindingMultipartUpload` -/
def multipartUpload : Adapter Answer (Counter × ℕ) where
  tooMany := "R2 supports at most 10,000 multipart parts"
  upload := uploadPart F
  finish := completeUpload F
  cancel := abortUpload F

/-- `put_multipart_opts` -/
def putMultipartOpts (location : Path) : BindingM Handle := do
  increment .multipartUploads 1
  let response ← send F (withHeader (request .post location) "x-slate-operation" "multipart-start")
  let response ← checkResponse F response
  let uploadId ← receiveJson F response multipartStarted
  pure (.fresh location uploadId)

end

end SlatedbCloudflare.BindingStore
