import SlatedbCloudflare.Library.Messages
import SlatedbCloudflare.Container.Handled
import SlatedbCloudflare.Container.Client

/-! # The bridge as a service

The container's requests wait in flight until `handleR2` handles them. Here is
what handling one request does to the bucket, in the terms of the call that sent it.
-/
namespace SlatedbCloudflare.BindingStore
open Programs Messages Traversals ObjectStore R2 Http Bridge

/-- The Worker as the container's HTTP client sees it: `S` is the bucket, and the
body of a response arrives as it was written. -/
inductive Handles (S : State → (r : R2.Request) → R2.Reply r → State → Prop) (F : Formats) :
    State → (q : Exchange) → Answer q → State → Prop
  | handled {s t : State} {request : HttpRequest} {response : HttpResponse}
      (h : Exec S s (handleR2 F (request.deliver F)) (.ok response) t) :
      Handles S F s (.send request) (.ok (response.deliver F)) t
  | received (s : State) (body : Body) : Handles S F s (.receive body) (.ok body) s

/-- A lost request or response reaches the client as an error. -/
def network (S : State → (r : R2.Request) → R2.Reply r → State → Prop) (F : Formats) :
    Service State Exchange Answer where
  serve := Handles S F
  lost _ x := ∃ e, x = .error e

abbrev BridgeEvent (ι : Type) := Event ι State Exchange Answer

/-- The key that `handleR2` receives for a location. -/
def bridgeKey (F : Formats) (location : Path) : String := F.arrives location.raw

theorem lookup_received (F : Formats) (headers : Headers) (name : String) :
    (received F headers).lookup name = (headers.lookup name).map F.arrives := by
  induction headers with
  | nil => rfl
  | cons h headers ih =>
    obtain ⟨k,v⟩ := h
    simp only [received, List.map_cons, List.lookup_cons] at ih ⊢
    split
    · rfl
    · exact ih

section Handling
variable {S : State → (r : R2.Request) → R2.Reply r → State → Prop} {F : Formats} {s t : State}
  {location : Path} {mode : PutMode} {q : HttpRequest} {bytes : Bytes} {response : HttpResponse}

theorem objectPath_received {r : HttpRequest}
    (hp : r.header "x-slate-path" = some (bridgeKey F location)) :
    (bridgeKey F location = "" ∧ ∃ e, objectPath r = .error e) ∨ objectPath r = .ok (bridgeKey F location) := by
  unfold objectPath
  simp only [hp]
  by_cases hk : bridgeKey F location = ""
  · exact .inl ⟨hk,_,if_pos hk⟩
  · exact .inr (if_neg hk)

theorem put_headers (hq : putRequest location mode = .ok q) :
    (q.deliver F).header "x-slate-path" = some (bridgeKey F location) ∧
      (q.deliver F).header "x-slate-operation" = none := by
  obtain ⟨_,hheaders⟩ := putRequest_eq hq
  constructor
  · simp [HttpRequest.deliver, HttpRequest.header, received, hheaders, bridgeKey]
  · cases mode with
    | overwrite | create => simp [HttpRequest.deliver, HttpRequest.header, received, hheaders, modeHeaders]
    | update version =>
      cases htag : version.eTag <;>
        simp [HttpRequest.deliver, HttpRequest.header, received, hheaders, modeHeaders, htag]

theorem handles_put_pathless (hq : putRequest location mode = .ok q) (hk : bridgeKey F location = "")
    (h : Handles S F s (.send { q with body := .bytes bytes }) (.ok response) t) :
    response.status = 500 ∧ t = s := by
  obtain ⟨hp,ho⟩ := put_headers (F := F) hq
  let r : HttpRequest := HttpRequest.deliver F { q with body := .bytes bytes }
  have ho' : r.header "x-slate-operation" = none := ho
  have hp' : r.header "x-slate-path" = some "" := hk ▸ hp
  have he : objectPath r = .error "missing x-slate-path" := by
    unfold objectPath
    rw [hp']
    exact if_pos rfl
  cases h with
  | handled h =>
    obtain ⟨rfl,rfl⟩ := handled_pathless "object" (by rw [ho']; rfl) (by decide) he h
    exact ⟨rfl,rfl⟩

theorem handles_put (hq : putRequest location mode = .ok q)
    (h : Handles S F s (.send { q with body := .bytes bytes }) (.ok response) t) :
    (bridgeKey F location = "" ∧ response.status = 500 ∧ t = s) ∨
      ∃ x, S s (.put (bridgeKey F location) bytes (.headers (received F q.headers))) x t ∧
        response = (encoded (putResponse F) x).deliver F := by
  obtain ⟨hmethod,_⟩ := putRequest_eq hq
  obtain ⟨hp,ho⟩ := put_headers (F := F) hq
  by_cases hk : bridgeKey F location = ""
  · exact .inl ⟨hk,handles_put_pathless hq hk h⟩
  · let r : HttpRequest := HttpRequest.deliver F { q with body := .bytes bytes }
    have hpath : objectPath r = .ok (bridgeKey F location) :=
      (objectPath_received (r := r) hp).resolve_left fun h => hk h.1
    have ho' : r.header "x-slate-operation" = none := ho
    cases h with
    | handled h =>
      obtain ⟨x,hs,rfl⟩ := handled_put hpath hmethod ho' h
      exact .inr ⟨x,hs,rfl⟩

/-- Whatever the bucket does on such a put can be had through the bridge. -/
theorem put_handles (hq : putRequest location mode = .ok q) (hkey : bridgeKey F location ≠ "")
    {x : R2.Reply (.put (bridgeKey F location) bytes (.headers (received F q.headers)))}
    (hs : S s (.put (bridgeKey F location) bytes (.headers (received F q.headers))) x t) :
    Handles S F s (.send { q with body := .bytes bytes }) (.ok ((encoded (putResponse F) x).deliver F)) t := by
  obtain ⟨hmethod,_⟩ := putRequest_eq hq
  obtain ⟨hp,ho⟩ := put_headers (F := F) hq
  let r : HttpRequest := HttpRequest.deliver F { q with body := .bytes bytes }
  have ho' : r.header "x-slate-operation" = none := ho
  have hpath : objectPath r = .ok (bridgeKey F location) :=
    (objectPath_received (r := r) hp).resolve_left fun h => hkey h.1
  have hexec := exec_once (putResponse F) hs
  have hhandle := handleR2_put (F := F) hpath hmethod ho'
  exact .handled (hhandle ▸ hexec)

end Handling

section Described
variable {R : Rules} {F : Formats} {s t : State} {location : Path} {response : HttpResponse}

/-- The response carries the ETag of an object in the bucket. -/
def Describes (s : State) (response : HttpResponse) : Prop :=
  ∃ key object, s.objects key = some object ∧ response.header "etag" = some object.httpEtag

theorem describes_of_headers (key : String) {object : Object} (hk : s.objects key = some object)
    (hr : response.headers = objectHeaders F object) : Describes s (response.deliver F) := by
  refine ⟨key,object,hk,?_⟩
  simp [HttpResponse.header, HttpResponse.deliver, received, hr, objectHeaders, Object.httpEtag,
    arrives_quoted]

theorem describes_put {mode : PutMode} {q : HttpRequest} {bytes : Bytes}
    (hq : putRequest location mode = .ok q)
    (h : Handles (Serve R) F s (.send { q with body := .bytes bytes }) (.ok response) t)
    (hs : isSuccess response.status = true) : Describes t response := by
  rcases handles_put hq h with ⟨_,h500,_⟩ | ⟨x,hput,rfl⟩
  · rw [h500] at hs
    cases hs
  · rcases x with error | _ | object
    · cases hs
    · cases hs
    · rcases hput.does with ⟨_,h,_⟩ | ⟨_,stored,_,_,hv,rfl⟩
      · cases h
      · cases hv
        exact describes_of_headers object.key (by simp [State.store]) rfl

theorem success_lt {status : ℕ} (h : isSuccess status = true) : status < 300 := by
  simp only [isSuccess, Bool.and_eq_true, decide_eq_true_eq] at h
  exact h.2

theorem describes_complete {id : String} {body : Body}
    (h : Handles (Serve R) F s (.send (completeRequest location id body)) (.ok response) t)
    (hs : isSuccess response.status = true) : Describes t response := by
  have hname : F.arrives "multipart-complete" = "multipart-complete" := arrives_printable F (by decide)
  cases h with
  | handled h =>
    have hp : ((completeRequest location id body).deliver F).header "x-slate-path" =
        some (bridgeKey F location) := by
      simp [completeRequest, HttpRequest.deliver, HttpRequest.header, received, withHeader, request,
        bridgeKey]
    have ho : ((completeRequest location id body).deliver F).header "x-slate-operation" =
        some "multipart-complete" := by
      simp [completeRequest, HttpRequest.deliver, HttpRequest.header, received, withHeader, request,
        hname, List.lookup_cons]
    rcases objectPath_received hp with ⟨_,e,he⟩ | hkey
    · obtain ⟨rfl,rfl⟩ := handled_pathless _ (by rw [ho]) (by decide) he h
      cases hs
    · obtain ⟨_,_,u,object,_,_,_,hcomplete,rfl⟩ := handled_complete hkey ho h (success_lt hs)
      obtain ⟨_,_,_,_,_,rfl⟩ := hcomplete.does
      exact describes_of_headers object.key (by simp [State.store, State.setUpload]) rfl

theorem readRequest_path {head : Bool} {headers : Headers} :
    ((readRequest location head headers).deliver F).header "x-slate-path" = some (bridgeKey F location) := by
  simp [readRequest, HttpRequest.deliver, HttpRequest.header, received, request, bridgeKey]

theorem readRequest_header {head : Bool} {headers : Headers} {name : String}
    (hname : name ≠ "x-slate-path") : ((readRequest location head headers).deliver F).header name =
      (headers.lookup name).map F.arrives := by
  have hbeq : (name == "x-slate-path") = false := beq_false_of_ne hname
  simp [readRequest, HttpRequest.deliver, HttpRequest.header, lookup_received, request, List.lookup_cons, hbeq]

theorem describes_read {head : Bool} {headers : Headers}
    (hheaders : headers.lookup "x-slate-operation" = none)
    (h : Handles (Serve R) F s (.send (readRequest location head headers)) (.ok response) t)
    (hs : isSuccess response.status = true) : Describes t response := by
  cases h with
  | handled h =>
    have ho : ((readRequest location head headers).deliver F).header "x-slate-operation" = none := by
      rw [readRequest_header (by decide), hheaders]
      rfl
    rcases objectPath_received readRequest_path with ⟨_,e,he⟩ | hkey
    · obtain ⟨rfl,rfl⟩ := handled_pathless "object" (by rw [ho]; rfl) (by decide) he h
      cases hs
    · cases head with
      | true =>
        obtain ⟨x,hx,rfl⟩ := handled_head hkey rfl ho h
        rcases x with error | _ | object
        · cases hs
        · cases hs
        · obtain ⟨hobject,rfl⟩ := hx.does
          exact describes_of_headers _ hobject.symm rfl
      | false =>
        obtain ⟨x,hx,rfl⟩ := handled_get hkey rfl ho h
        rcases x with error | _ | ⟨object,_ | body⟩
        · cases hs
        · cases hs
        · simp only [encoded, getResponse, HttpResponse.deliver, emptyResponse] at hs
          split at hs <;> cases hs
        · obtain ⟨rfl,⟨_,h⟩ | ⟨o,b,hobject,_,hv⟩⟩ := hx.does
          · cases h
          · cases hv
            exact describes_of_headers _ hobject rfl

theorem handles_list {query : List (String × String)}
    (h : Handles (Serve R) F s (.send (listRequest query)) (.ok response) t)
    (hs : isSuccess response.status = true) :
    ∃ v : Objects, response.body = .json (listedPage F v) ∧
      ∀ o ∈ v.objects, t.objects o.key = some o := by
  have hname : F.arrives "list" = "list" := arrives_printable F (by decide)
  cases h with
  | handled h =>
    have ho : ((listRequest query).deliver F).header "x-slate-operation" = some "list" := by
      simp [listRequest, HttpRequest.deliver, HttpRequest.header, lookup_received, hname]
    obtain ⟨_,_,_,x,hx,rfl⟩ := handled_list ho h
    rcases x with error | v
    · cases hs
    · obtain ⟨hlists,rfl⟩ := hx.does
      exact ⟨v,rfl,R.lists_sound _ _ _ _ _ hlists⟩

theorem listObject_etag {object : Object} {o : ListObject}
    (h : ListObject.ofJson F (listedObject F object) = some o) : o.etag = object.httpEtag := by
  unfold ListObject.ofJson at h
  simp [listedObject, Json.field, List.lookup_cons, Json.asStr, Option.bind_eq_some_iff] at h
  obtain ⟨_,_,_,_,rfl⟩ := h
  rfl

theorem listPage_etags {v : Objects} {page : ListPage}
    (h : ListPage.ofJson F (listedPage F v) = some page) :
    ∀ o ∈ page.objects, ∃ object ∈ v.objects, o.etag = object.httpEtag := by
  unfold ListPage.ofJson at h
  simp [listedPage, Json.field, List.lookup_cons, Json.asArr, Option.bind_eq_some_iff] at h
  obtain ⟨objects,hobjects,prefixes,_,h⟩ := h
  have hpage : page.objects = objects := by
    split at h
    · obtain ⟨_,_,h⟩ := Option.bind_eq_some_iff.mp h
      cases h
      rfl
    · cases h
      rfl
  intro o ho
  rw [hpage] at ho
  obtain ⟨object,hobject,heq⟩ := forall₂_mem (mapM_option.mp hobjects) o ho
  exact ⟨object,hobject,listObject_etag heq⟩

end Described

/-- A client whose one request was answered caused one event. -/
theorem event_of_answer {S : State → (r : R2.Request) → R2.Reply r → State → Prop} {q : Exchange}
    {v : Arrival q} {rest : List ((q : Exchange) × Answer q)}
    (hh : History (network S F) es i (⟨q,.ok v⟩ :: rest)) :
    ∃ e ∈ es, e.caller = i ∧ e.index = 0 ∧ e.answer = ⟨q,.ok v⟩ :=
  hh.answers 0 _ rfl (by rintro ⟨e,h⟩; cases h)

end SlatedbCloudflare.BindingStore
