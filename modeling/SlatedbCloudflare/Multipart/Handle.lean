import SlatedbCloudflare.Library.Programs
import SlatedbCloudflare.Platform.ObjectStore

/-! # Multipart upload handles

Both adapters hand out the same kind of handle: it numbers the parts, lets calls
through until the first `complete` or `abort`, and shares a list of uploaded parts
with the futures of `put_part`. They differ in the message about too many parts
and in how they talk to R2.
-/
namespace SlatedbCloudflare.Multipart
open Programs ObjectStore

/-- What the futures of a handle wait for: the store behind it, and the mutex
around the list of uploaded parts. -/
inductive Demand (Q : Type)
  | store (q : Q)
  | push (part : ℕ × String)
  | parts

/-- A poisoned mutex gives an error. -/
abbrev Supply {Q : Type} (A : Q → Type) : Demand Q → Type
  | .store q => A q
  | .push _ => Except String Unit
  | .parts => Except String (List (ℕ × String))

variable {Q : Type} {A : Q → Type} {Out α : Type}

abbrev UploadM (A : Q → Type) (Out α : Type) := Prog (Demand Q) (Supply A) Out Error α

/-- A program of the store run by a future. -/
def onStore : Prog Q A Out Error α → UploadM A Out α
  | .ok a => .ok a
  | .err e => .err e
  | .emit o p => .emit o (onStore p)
  | .call q k => .call (.store q) (fun x => onStore (k x))

@[simp] theorem onStore_ok (a : α) : onStore (.ok a : Prog Q A Out Error α) = .ok a := rfl
@[simp] theorem onStore_err (e : Error) : onStore (.err e : Prog Q A Out Error α) = .err e := rfl

theorem onStore_bind {β : Type} (p : Prog Q A Out Error α) (f : α → Prog Q A Out Error β) :
    onStore (p >>= f) = onStore p >>= fun a => onStore (f a) := by
  induction p with
  | ok a => rfl
  | err e => rfl
  | emit o p ih => exact congrArg (Prog.emit o) ih
  | call q k ih => exact congrArg (Prog.call (Demand.store q)) (funext ih)

theorem onStore_errs {P : Error → Prop} {p : Prog Q A Out Error α} (h : p.Errs P) :
    (onStore p).Errs P := by
  induction p with
  | ok a => trivial
  | err e => exact h
  | emit o p ih => exact ih h
  | call q k ih => exact fun x => ih x (h x)

theorem onStore_asks {P : Demand Q → Prop} {p : Prog Q A Out Error α}
    (h : p.Asks (fun q => P (.store q))) : (onStore p).Asks P := by
  induction p with
  | ok a => trivial
  | err e => trivial
  | emit o p ih => exact ih h
  | call q k ih => exact ⟨h.1,fun x => ih x (h.2 x)⟩

def onStoreReplies (tr : List ((q : Q) × A q)) : List ((d : Demand Q) × Supply A d) :=
  tr.map (fun x => ⟨.store x.1,x.2⟩)

theorem onStore_consumes {p : Prog Q A Out Error α} {tr : List ((d : Demand Q) × Supply A d)}
    {os : List Out} {q : UploadM A Out α} (h : Consumes (onStore p) tr os q) :
    ∃ tr' p', tr = onStoreReplies tr' ∧ q = onStore p' ∧ Consumes p tr' os p' := by
  induction p generalizing tr os with
  | ok a =>
    cases h
    exact ⟨[],_,rfl,rfl,.refl _⟩
  | err e =>
    cases h
    exact ⟨[],_,rfl,rfl,.refl _⟩
  | emit o p ih =>
    cases h with
    | refl => exact ⟨[],_,rfl,rfl,.refl _⟩
    | emit h =>
      obtain ⟨tr',p',rfl,rfl,hp⟩ := ih h
      exact ⟨tr',p',rfl,rfl,.emit hp⟩
  | call r k ih =>
    cases h with
    | refl => exact ⟨[],_,rfl,rfl,.refl _⟩
    | @call _ x _ _ _ _ h =>
      obtain ⟨tr',p',rfl,rfl,hp⟩ := ih x h
      exact ⟨⟨r,x⟩ :: tr',p',rfl,rfl,.call hp⟩

theorem onStore_returns {p : Prog Q A Out Error α} {tr : List ((d : Demand Q) × Supply A d)}
    {os : List Out} {a : α} (h : Returns (onStore p) tr os (.ok a)) :
    ∃ tr', tr = onStoreReplies tr' ∧ Returns p tr' os (.ok a) := by
  obtain ⟨tr',p',rfl,hp,h⟩ := onStore_consumes h
  cases p' with
  | ok b =>
    cases hp
    exact ⟨tr',rfl,h⟩
  | err e => cases hp
  | emit o p' => cases hp
  | call q k => cases hp

theorem push_consumes {β : Type} {p : Prog Q A Out Error β} {f : β → UploadM A Out α}
    {tr : List ((d : Demand Q) × Supply A d)} {os : List Out} {part : ℕ × String}
    {k : Supply A (.push part) → UploadM A Out α}
    (h : Consumes (onStore p >>= f) tr os (.call (.push part) k)) :
    ∃ b tr₁ tr₂ os₁ os₂, tr = onStoreReplies tr₁ ++ tr₂ ∧ Returns p tr₁ os₁ (.ok b) ∧
      Consumes (f b) tr₂ os₂ (.call (.push part) k) := by
  rcases Returns.consumes_bind h with ⟨p',hp,hq⟩ | ⟨b,tr₁,tr₂,os₁,os₂,rfl,rfl,hp,hf⟩
  · obtain ⟨tr',p'',rfl,rfl,hp''⟩ := onStore_consumes hp
    cases p'' with
    | ok b => exact ⟨b,tr',[],os,[],by simp,hp'',by rw [hq]; exact .refl _⟩
    | err e => cases hq
    | emit o p' => cases hq
    | call q k => cases hq
  · obtain ⟨tr',rfl,hp'⟩ := onStore_returns hp
    exact ⟨b,tr',tr₂,os₁,os₂,rfl,hp',hf⟩

theorem onStore_fails {p : Prog Q A Out Error α} (h : p.Fails) : (onStore p).Fails := by
  induction p with
  | ok a => exact h
  | err e => trivial
  | emit o p ih => exact ih h
  | call q k ih => exact fun x => ih x (h x)

theorem onStore_strict {Good : (d : Demand Q) × Supply A d → Prop} {p : Prog Q A Out Error α}
    (h : p.Strict (fun x => Good ⟨.store x.1,x.2⟩)) : (onStore p).Strict Good := by
  induction p with
  | ok a => trivial
  | err e => exact h
  | emit o p ih => exact ih h
  | call q k ih =>
    exact fun x => ⟨fun hx => ih x ((h x).1 hx),fun hx => onStore_fails ((h x).2 hx)⟩

/-- The fields of `R2MultipartUpload` and `BindingMultipartUpload` that calls read
and write; the list of parts is behind `Demand`. -/
structure Handle where
  location : Path
  uploadId : String
  nextPart : ℕ
  finished : Bool
  deriving DecidableEq

/-- The handle that `put_multipart_opts` returns. -/
def Handle.fresh (location : Path) (uploadId : String) : Handle := ⟨location,uploadId,1,false⟩

def MAX_MULTIPART_PARTS : ℕ := 10000

def multipartFinished (location : Path) : Error :=
  .precondition location.raw "multipart upload already finished"

/-- What the two implementations of the handle do not share. -/
structure Adapter (A : Q → Type) (Out : Type) where
  tooMany : String
  upload : Path → String → ℕ → List Bytes → UploadM A Out Unit
  finish : Path → String → UploadM A Out PutResult
  cancel : Path → String → UploadM A Out Unit

namespace Adapter
variable (M : Adapter A Out)

/-- The handle after the call, and the future the call returns. -/
def putPart (h : Handle) (data : List Bytes) : Handle × UploadM A Out Unit :=
  if h.finished then (h,.err (multipartFinished h.location))
  else if MAX_MULTIPART_PARTS < h.nextPart then (h,.err (.notSupported M.tooMany))
  else ({ h with nextPart := h.nextPart + 1 },M.upload h.location h.uploadId h.nextPart data)

def complete (h : Handle) : Handle × UploadM A Out PutResult :=
  if h.finished then (h,.err (multipartFinished h.location))
  else ({ h with finished := true },M.finish h.location h.uploadId)

def abort (h : Handle) : Handle × UploadM A Out Unit :=
  if h.finished then (h,.err (multipartFinished h.location))
  else ({ h with finished := true },M.cancel h.location h.uploadId)

end Adapter

/-- `sort_unstable_by_key` on part numbers. -/
def sortParts (parts : List (ℕ × String)) : List (ℕ × String) :=
  parts.mergeSort (fun p q => p.1 ≤ q.1)

end SlatedbCloudflare.Multipart
