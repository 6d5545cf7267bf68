import SlatedbCloudflare.Library.Paging
import SlatedbCloudflare.Library.Traversals
import SlatedbCloudflare.Platform.PathEncoding
import SlatedbCloudflare.Platform.Listing
import SlatedbCloudflare.Container.Handled
import SlatedbCloudflare.Container.BindingStore

/-! # The object store of the container: listing -/
namespace SlatedbCloudflare.BindingStore
open Programs Paging Traversals ObjectStore R2 Http Bridge

section
variable (F : Formats) (E : PathEncoding) (lib : Crate)

def listObjects (keyPrefix cursor : Option String) :
    BindingM (List ObjectMeta × Option String) := do
  let page ← listPage F keyPrefix cursor none
  let items ← Prog.orElse (page.objects.mapM (ListObject.intoMeta lib)) .err
  pure (items,page.cursor)

/-- The items of the stream that `list` returns, read to its end. -/
def list (fuel : ℕ) (keyPrefix : Option Path) : BindingM (Option (List ObjectMeta)) :=
  drain (listObjects F lib (keyPrefix.map Path.raw)) fuel ⟨none,[],false⟩

def listLevel (keyPrefix cursor : Option String) :
    BindingM ((List ObjectMeta × List Path) × Option String) := do
  let page ← listPage F keyPrefix cursor (some "/")
  let objects ← Prog.orElse (page.objects.mapM (ListObject.intoMeta lib)) .err
  let commonPrefixes := page.prefixes.map (fun value => Path.ofString E (trimEndSlashes value))
  pure ((objects,commonPrefixes),page.cursor)

def listWithDelimiter (fuel : ℕ) (keyPrefix : Option Path) : BindingM (Option ListResult) :=
  gather (listLevel F E lib (keyPrefix.map Path.raw)) ListResult.extend fuel none ⟨[],[]⟩

end

section Decoding
variable {F : Formats}

def ListObject.ofObject (o : Object) : ListObject :=
  ⟨o.key,o.size,o.httpEtag,o.version,o.uploaded * 1000000⟩

theorem ListObject.ofJson_listed {o : Object} (h : o.size < 2 ^ 64) :
    ListObject.ofJson F (listedObject F o) = some (ListObject.ofObject o) := by
  have hsize : asUnsigned 64 (.num o.size) = some o.size := by
    rw [asUnsigned, Json.asNum, Option.filter_some, if_pos (by simpa using h)]
  simp [ListObject.ofJson, listedObject, Json.field, Json.asStr, List.lookup_cons, hsize,
    F.parseDate_toISOString, Except.toOption, ListObject.ofObject]

theorem ListPage.ofJson_listed {v : Objects} (h : ∀ o ∈ v.objects, o.size < 2 ^ 64) :
    ListPage.ofJson F (listedPage F v) =
      some ⟨v.objects.map ListObject.ofObject,v.delimitedPrefixes,v.next⟩ := by
  have hobjects : (v.objects.map (listedObject F)).mapM (ListObject.ofJson F) =
      some (v.objects.map ListObject.ofObject) := by
    rw [mapM_option, List.forall₂_map_left_iff, List.forall₂_map_right_iff, List.forall₂_same]
    exact fun o ho => ListObject.ofJson_listed (h o ho)
  have hprefixes : (v.delimitedPrefixes.map Json.str).mapM Json.asStr = some v.delimitedPrefixes := by
    rw [mapM_option, List.forall₂_map_left_iff, List.forall₂_same]
    exact fun _ _ => rfl
  by_cases ht : v.truncated = true
  · cases hc : v.cursor with
    | none =>
      simp [ListPage.ofJson, listedPage, Json.field, Json.asArr, List.lookup_cons, hobjects, hprefixes,
        Objects.next, ht, hc]
    | some c =>
      simp [ListPage.ofJson, listedPage, Json.field, Json.asArr, Json.asStr, List.lookup_cons, hobjects,
        hprefixes, Objects.next, ht, hc]
  · simp [ListPage.ofJson, listedPage, Json.field, Json.asArr, List.lookup_cons, hobjects, hprefixes,
      Objects.next, ht]

end Decoding

section Evaluation
variable {F : Formats} {E : PathEncoding} {lib : Crate} {b : Bucket} {l : Listing b}

/-- The bridge in front of R2 answering the requests of a listing. -/
def listAnswers (F : Formats) (l : Listing b) : (q : Exchange) → Answer q
  | .send r => ((handleR2 F (r.deliver F)).eval l.answers).map (HttpResponse.deliver F)
  | .receive body => .ok body

theorem handleR2_listRequest (query : List (String × String)) :
    handleR2 F ((listRequest query).deliver F) = once (.list (query.lookup "prefix") (query.lookup "cursor")
      (query.lookup "delimiter")) (fun v => jsonResponse (listedPage F v)) := by
  have hname : F.arrives "list" = "list" := arrives_printable F (by decide)
  have ho : ((listRequest query).deliver F).header "x-slate-operation" = some "list" := by
    simp [HttpRequest.header, HttpRequest.deliver, listRequest, received, hname]
  exact handleR2_list ho

theorem lookup_listQuery (keyPrefix cursor delimiter : Option String) :
    (listQuery keyPrefix cursor delimiter).lookup "prefix" = keyPrefix ∧
      (listQuery keyPrefix cursor delimiter).lookup "cursor" = cursor ∧
      (listQuery keyPrefix cursor delimiter).lookup "delimiter" = delimiter := by
  cases keyPrefix <;> cases cursor <;> cases delimiter <;> simp [listQuery, List.lookup_cons]

theorem listRequest_sent (query : List (String × String)) :
    (listRequest query).headers.all (fun h => F.isHeaderValue h.2) = true := by
  have hlist : F.isHeaderValue "list" = true := F.isHeaderValue_text _ (by decide)
  simp [listRequest, hlist]

/-- A page of the bucket is one that the client decodes. -/
def InBucket (b : Bucket) (v : Objects) : Prop := ∀ o ∈ v.objects, b.objects o.key = some o

theorem listPage_eval {keyPrefix cursor delimiter : Option String}
    (h : InBucket b (l.page (keyPrefix.getD "") delimiter cursor)) :
    (listPage F keyPrefix cursor delimiter).eval (listAnswers F l) =
      .ok ⟨(l.page (keyPrefix.getD "") delimiter cursor).objects.map ListObject.ofObject,
        (l.page (keyPrefix.getD "") delimiter cursor).delimitedPrefixes,
        (l.page (keyPrefix.getD "") delimiter cursor).next⟩ := by
  obtain ⟨hbegin,hcursor,hdelimiter⟩ := lookup_listQuery keyPrefix cursor delimiter
  have hanswer : listAnswers F l (.send (listRequest (listQuery keyPrefix cursor delimiter))) =
      .ok ((jsonResponse (listedPage F (l.page (keyPrefix.getD "") delimiter cursor))).deliver F) := by
    rw [listAnswers, handleR2_listRequest, hbegin, hcursor, hdelimiter]
    rfl
  have hdecoded := ListPage.ofJson_listed (F := F) fun o ho => b.size_lt _ o (h o ho)
  rw [listPage, increment_eval, Prog.eval_bind_ok (send_eval (listRequest_sent _) hanswer),
    Prog.eval_bind_ok (checkResponse_eval rfl)]
  exact receiveJson_eval rfl hdecoded

def bridgedMeta (location : Path) (o : Object) : ObjectMeta :=
  ⟨location,o.uploaded * 1000000,o.size,some o.httpEtag,some o.version⟩

def keyLocation (lib : Crate) (key : String) : Path := (lib.parse key).toOption.getD Path.root

theorem keyLocation_raw (q : Path) : keyLocation lib q.raw = q := by
  rw [keyLocation, lib.parse_raw]
  rfl

theorem intoMeta_mapM {objects : List Object} (h : ∀ o ∈ objects, b.objects o.key = some o) :
    (objects.map ListObject.ofObject).mapM (ListObject.intoMeta lib) =
      .ok (objects.map (fun o => bridgedMeta (keyLocation lib o.key) o)) := by
  rw [mapM_except, List.forall₂_map_left_iff, List.forall₂_map_right_iff, List.forall₂_same]
  intro o ho
  obtain ⟨q,hq,_⟩ := Bucket.path_of_key (h o ho)
  rw [ListObject.intoMeta, ListObject.ofObject, ← hq, keyLocation_raw, lib.parse_raw]
  rfl

theorem listObjects_eval {keyPrefix cursor : Option String}
    (h : InBucket b (l.page (keyPrefix.getD "") none cursor)) :
    (listObjects F lib keyPrefix cursor).eval (listAnswers F l) =
      .ok ((l.page (keyPrefix.getD "") none cursor).objects.map
        (fun o => bridgedMeta (keyLocation lib o.key) o),
        (l.page (keyPrefix.getD "") none cursor).next) := by
  rw [listObjects, Prog.eval_bind_ok (listPage_eval h), intoMeta_mapM h]
  rfl

theorem listLevel_eval {keyPrefix cursor : Option String}
    (h : InBucket b (l.page (keyPrefix.getD "") (some "/") cursor)) :
    (listLevel F E lib keyPrefix cursor).eval (listAnswers F l) =
      .ok (((l.page (keyPrefix.getD "") (some "/") cursor).objects.map
          (fun o => bridgedMeta (keyLocation lib o.key) o),
        (l.page (keyPrefix.getD "") (some "/") cursor).delimitedPrefixes.map
          (fun value => Path.ofString E (trimEndSlashes value))),
        (l.page (keyPrefix.getD "") (some "/") cursor).next) := by
  rw [listLevel, Prog.eval_bind_ok (listPage_eval h), intoMeta_mapM h]
  rfl

theorem inBucket_plain {p : String} {v : Objects} (hv : v ∈ l.pages p none) : InBucket b v :=
  fun o ho => ((l.plain p o).mp (List.mem_flatMap.mpr ⟨v,hv,ho⟩)).1

theorem inBucket_level {p : String} {v : Objects} (hv : v ∈ l.pages p (some "/")) : InBucket b v :=
  fun o ho => ((l.level p o).mp (List.mem_flatMap.mpr ⟨v,hv,ho⟩)).1

theorem list_eval (keyPrefix : Option Path) : ∃ n, ∀ fuel, n ≤ fuel →
    (list F lib fuel keyPrefix).eval (listAnswers F l) = .ok (some
      (((l.pages ((keyPrefix.map Path.raw).getD "") none).flatMap Objects.objects).map
        (fun o => bridgedMeta (keyLocation lib o.key) o))) := by
  have hwalk : Walk (Answers (listAnswers F l) (listObjects F lib (keyPrefix.map Path.raw))) none
      ((l.pages ((keyPrefix.map Path.raw).getD "") none).map
        (fun v => v.objects.map (fun o => bridgedMeta (keyLocation lib o.key) o))) := by
    apply (l.walk ((keyPrefix.map Path.raw).getD "") none).map
    intro c v next hmem hv
    cases hv
    exact listObjects_eval (inBucket_plain hmem)
  refine ⟨_,fun fuel (hfuel : _ < fuel) => (drain_eval hwalk hfuel).trans ?_⟩
  simp [List.flatMap, List.map_flatten, Function.comp_def]

theorem listWithDelimiter_eval (keyPrefix : Option Path) : ∃ n, ∀ fuel, n ≤ fuel →
    (listWithDelimiter F E lib fuel keyPrefix).eval (listAnswers F l) = .ok (some
      ⟨((l.pages ((keyPrefix.map Path.raw).getD "") (some "/")).flatMap Objects.delimitedPrefixes).map
        (fun text => Path.ofString E (trimEndSlashes text)),
      ((l.pages ((keyPrefix.map Path.raw).getD "") (some "/")).flatMap Objects.objects).map
        (fun o => bridgedMeta (keyLocation lib o.key) o)⟩) := by
  have hwalk : Walk (Answers (listAnswers F l) (listLevel F E lib (keyPrefix.map Path.raw))) none
      ((l.pages ((keyPrefix.map Path.raw).getD "") (some "/")).map
        (fun v => (v.objects.map (fun o => bridgedMeta (keyLocation lib o.key) o),
          v.delimitedPrefixes.map (fun text => Path.ofString E (trimEndSlashes text))))) := by
    apply (l.walk ((keyPrefix.map Path.raw).getD "") (some "/")).map
    intro c v next hmem hv
    cases hv
    exact listLevel_eval (inBucket_level hmem)
  refine ⟨_,fun fuel hfuel => (gather_eval hwalk hfuel _).trans ?_⟩
  rw [ListResult.foldl_extend]
  simp [List.flatMap, List.map_flatten, Function.comp_def]

end Evaluation

end SlatedbCloudflare.BindingStore
