import SlatedbCloudflare.DurableObject.R2Store
import SlatedbCloudflare.Multipart.Handle

/-! # Multipart uploads of the Durable Object -/
namespace SlatedbCloudflare.R2Store
open Programs ObjectStore R2 Perf Multipart

abbrev R2UploadM (α : Type) := UploadM Reply Increment α

def multipartLockError : Error := .generic STORE "multipart upload state lock poisoned"

/-- `resume_multipart_upload` where its failure is not counted. -/
def resume (key uploadId : String) : R2M Unit := do
  Prog.orElse (← Prog.ask (.resumeMultipartUpload key uploadId)) (fun error => .err (generic error))

/-- Up to the point where the part has been uploaded. -/
def sendPart (location : Path) (uploadId : String) (partNumber : ℕ) (data : List Bytes) :
    R2M (ℕ × String) := do
  let bytes := collectPayload data
  bucket
  r2 (.resumeMultipartUpload (key location) uploadId)
  let part : ℕ × String ← r2 (.uploadPart (key location) uploadId partNumber bytes)
  increment .r2MultipartParts 1
  increment .r2WrittenBytes bytes.length
  pure part

def uploadPart (location : Path) (uploadId : String) (partNumber : ℕ) (data : List Bytes) :
    R2UploadM Unit := do
  let part ← onStore (sendPart location uploadId partNumber data)
  Prog.orElse (← Prog.ask (.push part)) (fun _ => .err multipartLockError)

def sendComplete (location : Path) (uploadId : String) (parts : List (ℕ × String)) :
    R2M PutResult := do
  let object : Object ← r2 (.completeMultipartUpload (key location) uploadId parts)
  increment .r2MultipartCompletes 1
  pure { eTag := some object.etag.val, version := some object.version }

def completeUpload (location : Path) (uploadId : String) : R2UploadM PutResult := do
  onStore (do
    bucket
    resume (key location) uploadId)
  let parts ← Prog.orElse (← Prog.ask .parts) (fun _ => .err multipartLockError)
  onStore (sendComplete location uploadId (sortParts parts))

def abortUpload (location : Path) (uploadId : String) : R2UploadM Unit :=
  onStore (do
    bucket
    resume (key location) uploadId
    r2 (.abortMultipartUpload (key location) uploadId))

/-- `R2MultipartUpload` -/
def multipartUpload : Adapter Reply Increment where
  tooMany := "R2 multipart uploads support at most 10,000 parts"
  upload := uploadPart
  finish := completeUpload
  cancel := abortUpload

/-- `put_multipart_opts` -/
def putMultipartOpts (location : Path) : R2M Handle := do
  increment .r2MultipartUploads 1
  bucket
  let created : Except String String ← Prog.ask (Request.createMultipartUpload (key location))
  let uploadId ← Prog.orElse created (fun error => .err (generic error))
  pure (.fresh location uploadId)

end SlatedbCloudflare.R2Store
