import SlatedbCloudflare.Library.Paging
import SlatedbCloudflare.Platform.PathEncoding
import SlatedbCloudflare.Platform.Listing
import SlatedbCloudflare.DurableObject.R2Store

/-! # The object store of the Durable Object: listing -/
namespace SlatedbCloudflare.R2Store
open Programs Paging ObjectStore R2 Perf

def nextListCursor (truncated : Bool) (cursor : Option String) : Option String :=
  if truncated then cursor else none

section
variable (E : PathEncoding) (lib : Crate)

def listPage (keyPrefix cursor delimiter : Option String) :
    R2M ((List ObjectMeta × List Path) × Option String) := do
  increment .r2Lists 1
  bucket
  let objects : Objects ← r2 (.list (some (keyPrefix.getD "")) cursor delimiter)
  let metadata := objects.objects.map (fun object =>
    objectMeta lib (Path.ofString E object.key) object)
  let commonPrefixes := objects.delimitedPrefixes.map (fun text =>
    Path.ofString E (trimEndSlashes text))
  pure ((metadata,commonPrefixes),nextListCursor objects.truncated objects.cursor)

def listObjects (keyPrefix cursor : Option String) : R2M (List ObjectMeta × Option String) := do
  let ((items,_),next) ← listPage E lib keyPrefix cursor none
  pure (items,next)

/-- The items of the stream that `list` returns, read to its end. -/
def list (fuel : ℕ) (keyPrefix : Option Path) : R2M (Option (List ObjectMeta)) :=
  drain (listObjects E lib (keyPrefix.map Path.raw)) fuel ⟨none,[],false⟩

def listWithDelimiter (fuel : ℕ) (keyPrefix : Option Path) : R2M (Option ListResult) :=
  gather (fun cursor => listPage E lib (keyPrefix.map Path.raw) cursor (some "/"))
    ListResult.extend fuel none ⟨[],[]⟩

end

section Evaluation
variable {E : PathEncoding} {lib : Crate} {b : Bucket} {l : Listing b}

def described (E : PathEncoding) (lib : Crate) (v : Objects) : List ObjectMeta × List Path :=
  (v.objects.map (fun o => objectMeta lib (Path.ofString E o.key) o),
    v.delimitedPrefixes.map (fun text => Path.ofString E (trimEndSlashes text)))

theorem listPage_eval (keyPrefix cursor delimiter : Option String) :
    (listPage E lib keyPrefix cursor delimiter).eval l.answers =
      .ok (described E lib (l.page (keyPrefix.getD "") delimiter cursor),
        (l.page (keyPrefix.getD "") delimiter cursor).next) := rfl

theorem listObjects_eval (keyPrefix cursor : Option String) :
    (listObjects E lib keyPrefix cursor).eval l.answers =
      .ok ((described E lib (l.page (keyPrefix.getD "") none cursor)).1,
        (l.page (keyPrefix.getD "") none cursor).next) := rfl

theorem list_eval (keyPrefix : Option Path) : ∃ n, ∀ fuel, n ≤ fuel →
    (list E lib fuel keyPrefix).eval l.answers = .ok (some
      (((l.pages ((keyPrefix.map Path.raw).getD "") none).flatMap Objects.objects).map
        (fun o => objectMeta lib (Path.ofString E o.key) o))) := by
  have hwalk : Walk (Answers l.answers (listObjects E lib (keyPrefix.map Path.raw))) none
      ((l.pages ((keyPrefix.map Path.raw).getD "") none).map (fun v => (described E lib v).1)) := by
    apply (l.walk ((keyPrefix.map Path.raw).getD "") none).map
    intro c v next _ hv
    cases hv
    exact listObjects_eval _ c
  refine ⟨_,fun fuel (hfuel : _ < fuel) => (drain_eval hwalk hfuel).trans ?_⟩
  simp [described, List.flatMap, List.map_flatten, Function.comp_def]

theorem listWithDelimiter_eval (keyPrefix : Option Path) : ∃ n, ∀ fuel, n ≤ fuel →
    (listWithDelimiter E lib fuel keyPrefix).eval l.answers = .ok (some
      ⟨((l.pages ((keyPrefix.map Path.raw).getD "") (some "/")).flatMap Objects.delimitedPrefixes).map
        (fun text => Path.ofString E (trimEndSlashes text)),
      ((l.pages ((keyPrefix.map Path.raw).getD "") (some "/")).flatMap Objects.objects).map
        (fun o => objectMeta lib (Path.ofString E o.key) o)⟩) := by
  have hwalk : Walk (Answers l.answers
      (fun cursor => listPage E lib (keyPrefix.map Path.raw) cursor (some "/"))) none
      ((l.pages ((keyPrefix.map Path.raw).getD "") (some "/")).map (described E lib)) := by
    apply (l.walk ((keyPrefix.map Path.raw).getD "") (some "/")).map
    intro c v next _ hv
    cases hv
    exact listPage_eval _ c _
  refine ⟨_,fun fuel hfuel => (gather_eval hwalk hfuel _).trans ?_⟩
  rw [ListResult.foldl_extend]
  simp [described, List.flatMap, List.map_flatten, Function.comp_def]

end Evaluation

end SlatedbCloudflare.R2Store
