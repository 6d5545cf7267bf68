import SlatedbCloudflare.Adapters.Explanations
import SlatedbCloudflare.DurableObject.ConditionalWrites
import SlatedbCloudflare.Multipart.Completion

/-! # The Durable Object's store as a store of objects

Every call makes one request that matters, at a fixed place among its requests; a copy
makes two. R2 answers each of them at once, so each is a point in the history of the bucket.
-/
namespace SlatedbCloudflare.R2Store
open Programs Messages Histories Narratives Adapters ObjectStore R2 Perf

def perform (lib : Crate) : Call (R2M Unit) → R2M Adapters.Outcome
  | .put location payload mode => do
    let result ← putOpts location payload mode
    pure (.put result)
  | .get location options => do
    let result ← getInner lib location options
    pure (.get result)
  | .delete location => do
    let _ ← R2Store.delete location
    pure .done
  | .copy source target mode => do
    copyOpts lib source target mode
    pure .done
  | .other p => do
    p
    pure .done

/-- Keys are the locations, and ETags are handed out and compared without quotes. An update
with neither ETag nor version applies to anything. -/
def dialect (lib : Crate) : Dialect where
  key location := location.raw
  tag object := object.etag.val
  version object := object.version
  date object := some ((lib.fromTimestampMillis object.uploaded).getD 0)
  Matches _ version found := match version.eTag with
    | some tag => if tag = "*" then found ≠ none else ∃ old, found = some old ∧ old.etag.val = tag
    | none => version.version = none

theorem permits_iff {lib : Crate} (R : Rules) {location : Path} {mode : PutMode} {c : Option Conditional}
    (hc : putConditional mode = .ok c) (found : Option Object) :
    (dialect lib).Permits location mode found ↔ R.evaluate (onlyIf c) found = some true := by
  cases mode with
  | overwrite =>
    cases hc
    simp [Dialect.Permits, onlyIf, R.evaluate_none]
  | create =>
    cases hc
    simp [Dialect.Permits, onlyIf, R.evaluate_create]
  | update version =>
    obtain ⟨eTag,ver⟩ := version
    cases eTag with
    | none =>
      cases ver with
      | some v => cases hc
      | none =>
        cases hc
        simp [Dialect.Permits, dialect, onlyIf, R.evaluate_empty]
    | some tag =>
      simp only [putConditional, Option.isNone_some, Bool.and_false] at hc
      cases hc
      by_cases htag : tag = "*"
      · subst htag
        simp [Dialect.Permits, dialect, onlyIf, R.evaluate_any, Option.isSome_iff_ne_none]
      · simp [Dialect.Permits, dialect, onlyIf, R.evaluate_match _ _ htag, htag, Option.any_eq_true]

section Outcomes
variable {lib : Crate} {tr : List ((r : Request) × Reply r)} {os : List Increment} {location : Path} {options : GetOptions}

inductive Fetched (lib : Crate) (location : Path) (options : GetOptions) :
    (r : Request) × Reply r → Option (Object × Option Bytes) → Prop
  | head (hplain : plainHead options = true) (object : Option Object) :
      Fetched lib location options ⟨.head (key location),.ok object⟩ (object.map (fun o => (o,none)))
  | get {range : ReadRange} (hrange : readRange lib options = .ok range) (found : Option (Object × Option Bytes)) :
      Fetched lib location options ⟨.get (key location) (readCondition options) range,.ok found⟩ found

inductive GetOutcome (lib : Crate) (location : Path) (options : GetOptions) :
    List ((r : Request) × Reply r) → Except Error GetResult → Prop
  | failed (tr : List ((r : Request) × Reply r)) {e : Error} (he : ∀ path source, e ≠ .notFound path source) :
      GetOutcome lib location options tr (.error e)
  | missing {x : (r : Request) × Reply r} (hx : Fetched lib location options x none) :
      GetOutcome lib location options [⟨.bucket,.ok ()⟩,x] (.error (.notFound location.raw "R2 object not found"))
  | head {x : (r : Request) × Reply r} {object : Object} {body : Option Bytes} {bounds : ℕ × ℕ}
      (hx : Fetched lib location options x (some (object,body))) (hhead : options.head = true)
      (hbounds : returnedRange lib options.range object.size = .ok bounds) :
      GetOutcome lib location options [⟨.bucket,.ok ()⟩,x] (.ok ⟨[],objectMeta lib location object,bounds⟩)
  | content {x : (r : Request) × Reply r} {object : Object} {body bytes : Bytes} {bounds : ℕ × ℕ}
      (hx : Fetched lib location options x (some (object,some body))) (hhead : options.head = false)
      (hbounds : returnedRange lib options.range object.size = .ok bounds) :
      GetOutcome lib location options [⟨.bucket,.ok ()⟩,x,⟨.body body,.ok bytes⟩]
        (.ok ⟨bytes,objectMeta lib location object,bounds⟩)

end Outcomes

section Copies
variable {lib : Crate} {source target : Path} {tr : List ((r : Request) × Reply r)} {os : List Increment}
  {r : Request}

end Copies

section Places
variable {lib : Crate} {location : Path} {options : GetOptions} {mode : PutMode}

end Places

/-- What an event did, as commands. -/
def block {ι : Type} (e : BucketEvent ι) : List BucketCommand := told e.before e.req e.reply e.after

section Blocks
variable {ι : Type} {lib : Crate} {R : Rules} {location : Path} {options : GetOptions} {e : BucketEvent ι}

end Blocks

section Runs
variable {ι : Type} [DecidableEq ι] {R : Rules} {lib : Crate} {calls : ι → Call (R2M Unit)} {s : State}
  {es : List (BucketEvent ι)} {t : System ι State Request Reply Increment Error Adapters.Outcome} {i : ι}
  {location : Path} {options : GetOptions} {mode : PutMode} {payload : List Bytes}

section
variable (h : Run (binding R) (start s (fun i => perform lib (calls i))) es t)
include h

end

end Runs

end SlatedbCloudflare.R2Store
