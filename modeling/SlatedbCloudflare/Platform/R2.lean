import SlatedbCloudflare.Platform.ObjectStore
import Mathlib.Logic.Function.Basic

/-! # The R2 binding

The requests both adapters make through the Workers binding, and what R2 does
with them. How R2 evaluates conditions, reads ranges and lists is not part of
the repository: it enters as `Rules`, with the behaviour the adapters rely on.
-/
namespace SlatedbCloudflare.R2
open ObjectStore

/-- R2 builds its ETags from visible ASCII other than the quote. -/
def isETagChar (c : Char) : Bool := 33 ≤ c.toNat && c.toNat ≤ 126 && c ≠ '"'

structure ETag where
  val : String
  valid : val.toList.all isETagChar = true
  deriving DecidableEq

def ETag.quoted (t : ETag) : String := "\"" ++ t.val ++ "\""

structure Object where
  key : String
  version : String
  etag : ETag
  uploaded : ℕ
  content : Bytes
  deriving DecidableEq

def Object.size (o : Object) : ℕ := o.content.length
def Object.httpEtag (o : Object) : String := o.etag.quoted

structure Conditional where
  etagMatches : Option String := none
  etagDoesNotMatch : Option String := none
  uploadedBefore : Option ℕ := none
  uploadedAfter : Option ℕ := none
  deriving DecidableEq

abbrev Headers := List (String × String)

def conditionalHeaders : List String :=
  ["if-match","if-none-match","if-modified-since","if-unmodified-since"]

/-- The part of a header list that `onlyIf` looks at. -/
def Headers.conditions (h : Headers) : Headers :=
  h.filter (fun x => conditionalHeaders.contains x.1)

inductive OnlyIf
  | none
  | conditional (c : Conditional)
  | headers (h : Headers)

inductive Range
  | offsetWithLength (offset length : ℕ)
  | offsetToEnd (offset : ℕ)
  | suffix (suffix : ℕ)
  deriving DecidableEq

inductive ReadRange
  | whole
  | range (r : Range)
  | headers (h : Headers)

structure Objects where
  objects : List Object
  delimitedPrefixes : List String
  truncated : Bool
  cursor : Option String

inductive Request
  | bucket
  | head (key : String)
  | get (key : String) (onlyIf : OnlyIf) (range : ReadRange)
  | body (bytes : Bytes)
  | put (key : String) (bytes : Bytes) (onlyIf : OnlyIf)
  | delete (key : String)
  | list (keyPrefix cursor delimiter : Option String)
  | createMultipartUpload (key : String)
  | resumeMultipartUpload (key uploadId : String)
  | uploadPart (key uploadId : String) (partNumber : ℕ) (bytes : Bytes)
  | completeMultipartUpload (key uploadId : String) (parts : List (ℕ × String))
  | abortMultipartUpload (key uploadId : String)

/-- What a successful request returns. A `get` returns metadata, and a body when
its conditions allow one. -/
abbrev Value : Request → Type
  | .bucket => Unit
  | .head _ => Option Object
  | .get _ _ _ => Option (Object × Option Bytes)
  | .body _ => Bytes
  | .put _ _ _ => Option Object
  | .delete _ => Unit
  | .list _ _ _ => Objects
  | .createMultipartUpload _ => String
  | .resumeMultipartUpload _ _ => Unit
  | .uploadPart _ _ _ _ => ℕ × String
  | .completeMultipartUpload _ _ _ => Object
  | .abortMultipartUpload _ _ => Unit

abbrev Reply (r : Request) := Except String (Value r)

def Request.objectKey : Request → Option String
  | .bucket | .body _ | .list _ _ _ => none
  | .head key | .get key _ _ | .put key _ _ | .delete key => some key
  | .createMultipartUpload key | .resumeMultipartUpload key _ | .uploadPart key _ _ _
  | .completeMultipartUpload key _ _ | .abortMultipartUpload key _ => some key

structure Upload where
  key : String
  parts : ℕ → Option (String × Bytes)

structure State where
  objects : String → Option Object
  uploads : String → Option Upload

def State.store (s : State) (o : Object) : State :=
  { s with objects := Function.update s.objects o.key (some o) }

def State.remove (s : State) (key : String) : State :=
  { s with objects := Function.update s.objects key none }

def State.setUpload (s : State) (uploadId : String) (u : Option Upload) : State :=
  { s with uploads := Function.update s.uploads uploadId u }

def Upload.part (u : Upload) (p : ℕ × String) : Option Bytes :=
  match u.parts p.1 with
  | some (etag,bytes) => if etag = p.2 then some bytes else none
  | none => none

/-- Exactly the listed parts, in the listed order. -/
def Upload.assemble (u : Upload) (parts : List (ℕ × String)) : Option Bytes :=
  (parts.mapM u.part).map List.flatten

/-- What the adapters rely on in R2's evaluation of requests. `evaluate` gives
`none` where R2 rejects the condition itself. -/
structure Rules where
  evaluate : OnlyIf → Option Object → Option Bool
  read : OnlyIf → ReadRange → Object → Option (Option Bytes)
  lists : (String → Option Object) → Option String → Option String → Option String → Objects → Prop
  evaluate_none : ∀ o, evaluate .none o = some true
  evaluate_empty : ∀ o, evaluate (.conditional {}) o = some true
  evaluate_create : ∀ o, evaluate (.conditional { etagDoesNotMatch := some "*" }) o = some o.isNone
  evaluate_match : ∀ e o, e ≠ "*" → evaluate (.conditional { etagMatches := some e }) o =
    some (o.any (fun x => x.etag.val = e))
  evaluate_any : ∀ o, evaluate (.conditional { etagMatches := some "*" }) o = some o.isSome
  evaluate_noHeader : ∀ h o, Headers.conditions h = [] → evaluate (.headers h) o = some true
  evaluate_ifNoneMatch : ∀ h o, Headers.conditions h = [("if-none-match","*")] →
    evaluate (.headers h) o = some o.isNone
  evaluate_ifMatch : ∀ h (t : ETag) o, Headers.conditions h = [("if-match",t.quoted)] →
    evaluate (.headers h) o = some (o.any (fun x => x.etag = t))
  evaluate_ifMatchAny : ∀ h o, Headers.conditions h = [("if-match","*")] →
    evaluate (.headers h) o = some o.isSome
  read_whole : ∀ o, read .none .whole o = some (some o.content)
  lists_sound : ∀ b p c d v, lists b p c d v → ∀ o ∈ v.objects, b o.key = some o

namespace Rules

def matchesTag (tag : String) (o : Object) : Bool := tag = "*" || o.etag.val = tag

def conditionalHolds (c : Conditional) (o : Option Object) : Bool :=
  c.etagMatches.all (fun tag => o.any (matchesTag tag)) &&
    c.etagDoesNotMatch.all (fun tag => !o.any (matchesTag tag)) &&
    (c.etagMatches.isSome || c.uploadedBefore.all (fun date => o.all (fun x => x.uploaded < date))) &&
    (c.etagDoesNotMatch.isSome || c.uploadedAfter.all (fun date => o.all (fun x => date < x.uploaded)))

/-- The ETag conditions of a header list, for a wildcard or one entity tag. -/
def headersHold (h : Headers) (o : Option Object) : Bool :=
  h.conditions.all (fun x =>
    let held := o.any (fun y => x.2 = "*" || y.httpEtag = x.2)
    if x.1 = "if-match" then held else if x.1 = "if-none-match" then !held else true)

def standardEvaluate : OnlyIf → Option Object → Option Bool
  | .none, _ => some true
  | .conditional c, o => some (conditionalHolds c o)
  | .headers h, o => some (headersHold h o)

theorem quoted_inj {t u : ETag} : t.quoted = u.quoted ↔ t = u := by
  constructor
  · intro h
    have hl : ('"' :: t.val.toList) ++ ['"'] = ('"' :: u.val.toList) ++ ['"'] := by
      simpa [ETag.quoted] using congrArg String.toList h
    have hv : t.val = u.val := by simpa [String.toList_inj] using hl
    cases t
    cases u
    simpa using hv
  · rintro rfl
    rfl

theorem quoted_ne_star (t : ETag) : t.quoted ≠ "*" := by
  intro h
  have hl := congrArg (fun s => s.toList.length) h
  simp [ETag.quoted] at hl

def standard : Rules where
  evaluate := standardEvaluate
  read onlyIf _ o := some (if standardEvaluate onlyIf (some o) = some true then some o.content else none)
  lists b _ _ _ v := ∀ o ∈ v.objects, b o.key = some o
  evaluate_none _ := rfl
  evaluate_empty _ := rfl
  evaluate_create o := by cases o <;> rfl
  evaluate_match e o he := by
    cases o with
    | none => rfl
    | some x => simp [standardEvaluate, conditionalHolds, matchesTag, he]
  evaluate_any o := by cases o <;> rfl
  evaluate_noHeader h o hc := by simp [standardEvaluate, headersHold, hc]
  evaluate_ifNoneMatch h o hc := by cases o <;> simp [standardEvaluate, headersHold, hc]
  evaluate_ifMatch h t o hc := by
    cases o with
    | none => simp [standardEvaluate, headersHold, hc]
    | some x =>
      simp [standardEvaluate, headersHold, hc, Object.httpEtag, quoted_inj, quoted_ne_star]
  evaluate_ifMatchAny h o hc := by cases o <;> simp [standardEvaluate, headersHold, hc]
  read_whole _ := rfl
  lists_sound _ _ _ _ _ h := h

end Rules

/-- The effect of a request that R2 carries out, with the value it returns. -/
def Does (R : Rules) (s : State) : (r : Request) → Value r → State → Prop
  | .bucket, _, t => t = s
  | .head key, v, t => v = s.objects key ∧ t = s
  | .get key onlyIf range, v, t => t = s ∧
      ((s.objects key = none ∧ v = none) ∨
        ∃ o b, s.objects key = some o ∧ R.read onlyIf range o = some b ∧ v = some (o,b))
  | .body bytes, v, t => v = bytes ∧ t = s
  | .put key bytes onlyIf, v, t =>
      (R.evaluate onlyIf (s.objects key) = some false ∧ v = none ∧ t = s) ∨
        (R.evaluate onlyIf (s.objects key) = some true ∧
          ∃ o : Object, o.key = key ∧ o.content = bytes ∧ v = some o ∧ t = s.store o)
  | .delete key, _, t => t = s.remove key
  | .list p c d, v, t => R.lists s.objects p c d v ∧ t = s
  | .createMultipartUpload key, v, t =>
      s.uploads v = none ∧ t = s.setUpload v (some ⟨key,fun _ => none⟩)
  | .resumeMultipartUpload _ _, _, t => t = s
  | .uploadPart key uploadId n bytes, v, t => ∃ u, s.uploads uploadId = some u ∧ u.key = key ∧
      v.1 = n ∧ t = s.setUpload uploadId
        (some { u with parts := Function.update u.parts n (some (v.2,bytes)) })
  | .completeMultipartUpload key uploadId parts, v, t => ∃ u, s.uploads uploadId = some u ∧
      u.key = key ∧ u.assemble parts = some v.content ∧ v.key = key ∧
      t = (s.store v).setUpload uploadId none
  | .abortMultipartUpload key uploadId, _, t => ∃ u, s.uploads uploadId = some u ∧ u.key = key ∧
      t = s.setUpload uploadId none

/-- A request is carried out and acknowledged, or reported as failed whether or
not it was carried out. -/
inductive Serve (R : Rules) : State → (r : Request) → Reply r → State → Prop
  | served {s : State} {r : Request} {v : Value r} {t : State} (h : Does R s r v t) :
      Serve R s r (.ok v) t
  | failed (s : State) (r : Request) (e : String) : Serve R s r (.error e) s
  | unacknowledged {s : State} {r : Request} {v : Value r} {t : State} (h : Does R s r v t)
      (e : String) : Serve R s r (.error e) t

theorem Serve.does {R : Rules} {s t : State} {r : Request} {v : Value r}
    (h : Serve R s r (.ok v) t) : Does R s r v t := by
  cases h with
  | served h => exact h

/-- R2 on a day without failures. -/
def Reliable (R : Rules) (s : State) (r : Request) (x : Reply r) (t : State) : Prop :=
  ∃ v, x = .ok v ∧ Does R s r v t

def Request.IsRead : Request → Prop
  | .bucket => True
  | .head _ => True
  | .get _ _ _ => True
  | .body _ => True
  | .list _ _ _ => True
  | .resumeMultipartUpload _ _ => True
  | _ => False

theorem Does.read {R : Rules} {s t : State} {r : Request} {v : Value r} (h : Does R s r v t)
    (hr : r.IsRead) : t = s := by
  cases r with
  | bucket => exact h
  | head key => exact h.2
  | get key onlyIf range => exact h.1
  | body bytes => exact h.2
  | list p c d => exact h.2
  | resumeMultipartUpload key uploadId => exact h
  | put | delete | createMultipartUpload | uploadPart | completeMultipartUpload
  | abortMultipartUpload => exact hr.elim

theorem Serve.read {R : Rules} {s t : State} {r : Request} {x : Reply r} (h : Serve R s r x t)
    (hr : r.IsRead) : t = s := by
  cases h with
  | served h => exact h.read hr
  | failed => rfl
  | unacknowledged h => exact h.read hr

end SlatedbCloudflare.R2
