import SlatedbCloudflare.Adapters.Explanations
import SlatedbCloudflare.Container.ConditionalWrites
import SlatedbCloudflare.Container.Reads

/-! # The container's store as a store of objects

The calls are those of the Durable Object's store, but each request crosses the bridge.
Handling it is one or a few requests on the bucket, and the status and the headers of the
response say what R2 answered.
-/
namespace SlatedbCloudflare.BindingStore
open Programs Messages Histories Narratives Traversals Adapters ObjectStore R2 Http Bridge

def perform (F : Formats) (lib : Crate) : Call (BindingM Unit) → BindingM Adapters.Outcome
  | .put location payload mode => do
    let result ← putOpts F location payload mode
    pure (.put result)
  | .get location options => do
    let result ← getOpts F lib location options
    pure (.get result)
  | .delete location => do
    let _ ← BindingStore.delete F location
    pure .done
  | .copy source target mode => do
    copyOpts F lib source target mode
    pure .done
  | .other p => do
    p
    pure .done

/-- Keys and versions are what arrives of them, and ETags are quoted. -/
def dialect (R : Rules) (F : Formats) : Dialect where
  key := bridgeKey F
  tag object := object.httpEtag
  version object := F.arrives object.version
  date object := (F.parseDate (F.arrives (F.toISOString object.uploaded))).toOption
  Matches location version found := ∃ tag, version.eTag = some tag ∧ Matched R F location tag found

theorem permits_iff {R : Rules} (F : Formats) {location : Path} {mode : PutMode} {q : HttpRequest}
    (hq : putRequest location mode = .ok q) (found : Option Object) :
    (dialect R F).Permits location mode found ↔ R.evaluate (.headers (received F q.headers)) found = some true := by
  rcases evaluate_put R F hq with ⟨rfl,hall⟩ | ⟨rfl,hnone⟩ | ⟨version,tag,rfl,htag,hmatch⟩
  · simp [Dialect.Permits, hall]
  · simp [Dialect.Permits, hnone]
  · rw [← hmatch]
    constructor
    · rintro ⟨tag',htag',h⟩
      rw [htag] at htag'
      cases htag'
      exact h
    · exact fun h => ⟨tag,htag,h⟩

section Handling
variable {R : Rules} {F : Formats} {ι : Type}

/-- An event of the bridge, told by what handling its request did. -/
inductive NarratedBy (R : Rules) (F : Formats) : BridgeEvent ι → List BucketCommand → Prop
  | handled (caller : ι) (index : ℕ) {request : HttpRequest} {response : HttpResponse} {s t : State}
      {tr : List ((r : R2.Request) × R2.Reply r)} {os : List String} {cs : List BucketCommand}
      (hreturns : Returns (handleR2 F (request.deliver F)) tr os (.ok response)) (h : Narrative (Serve R) told s tr cs t) :
      NarratedBy R F ⟨caller,index,.send request,.ok (response.deliver F),s,t⟩ cs
  | received (caller : ι) (index : ℕ) (body : Body) (s : State) :
      NarratedBy R F ⟨caller,index,.receive body,.ok body,s,s⟩ []

theorem pathless_returns {request : HttpRequest} {response : HttpResponse} {error : String} (operation : String)
    {tr : List ((r : R2.Request) × R2.Reply r)} {os : List String}
    (ho : (request.header "x-slate-operation").getD "object" = operation) (hlist : operation ≠ "list")
    (hp : objectPath request = .error error) (h : Returns (handleR2 F request) tr os (.ok response)) :
    tr = [] ∧ response = textResponse 500 error := by
  unfold handleR2 dispatch at h
  simp only [ho, if_neg hlist, hp, Prog.orElse_error, Prog.err_bind, Prog.recover_err] at h
  obtain ⟨_,_,h₁⟩ := h.of_emit
  obtain ⟨rfl,_,hr⟩ := h₁.of_ok
  cases hr
  exact ⟨rfl,rfl⟩

/-- How an event answered the one request on the bucket that it stands for, if it came so far. -/
inductive Answered (R : Rules) (F : Formats) (e : BridgeEvent ι) (r : R2.Request) (encode : Value r → HttpResponse) :
    List BucketCommand → Prop
  | pathless {q : HttpRequest} {response : HttpResponse} (ha : e.answer = ⟨.send q,.ok response⟩)
      (hs : response.status = 500) : Answered R F e r encode []
  | answered {q : HttpRequest} {x : R2.Reply r} (hs : Serve R e.before r x e.after)
      (ha : e.answer = ⟨.send q,.ok ((encoded encode x).deliver F)⟩) :
      Answered R F e r encode (told e.before r x e.after)

theorem NarratedBy.answered {e : BridgeEvent ι} {cs : List BucketCommand} (h : NarratedBy R F e cs)
    {q : HttpRequest} (hr : e.req = .send q) {location : Path} {r : R2.Request} {encode : Value r → HttpResponse}
    (ho : (q.deliver F).header "x-slate-operation" = none)
    (hpath : (q.deliver F).header "x-slate-path" = some (bridgeKey F location))
    (honce : objectPath (q.deliver F) = .ok (bridgeKey F location) → handleR2 F (q.deliver F) = once r encode) :
    Answered R F e r encode cs := by
  cases h with
  | received => cases hr
  | @handled caller index request response s t tr os cs hreturns h =>
    cases hr
    rcases objectPath_received hpath with ⟨_,error,he⟩ | hkey
    · obtain ⟨rfl,rfl⟩ := pathless_returns "object" (by rw [ho]; rfl) (by decide) he hreturns
      obtain ⟨rfl,rfl⟩ := h.of_nil
      exact .pathless rfl rfl
    · rw [honce hkey] at hreturns
      obtain ⟨x,rfl,hresult⟩ := of_once hreturns
      cases hresult
      obtain ⟨hs,rfl⟩ := h.of_one
      exact .answered hs rfl

end Handling

section Requests
variable {R : Rules} {F : Formats} {ι : Type} {location : Path} {mode : PutMode} {e : BridgeEvent ι}
  {cs : List BucketCommand}

end Requests

section Responses
variable {R : Rules} {F : Formats} {lib : Crate} {ι : Type} {location : Path} {mode : PutMode} {e : BridgeEvent ι}
  {cs : List BucketCommand} {q : HttpRequest} {response : HttpResponse} {object : Object}

theorem Answered.puts {payload : Bytes} (hq : putRequest location mode = .ok q)
    (h : Answered R F e (.put (bridgeKey F location) payload (.headers (received F q.headers))) (putResponse F) cs) :
    Puts (dialect R F) location payload mode cs := by
  cases h with
  | pathless => exact .unreached
  | answered hs ha => exact puts_of_serve (D := dialect R F) (permits_iff F hq) hs

theorem Answered.refused {payload : List Bytes} (hq : putRequest location mode = .ok q)
    (h : Answered R F e (.put (bridgeKey F location) payload.flatten (.headers (received F q.headers))) (putResponse F) cs)
    {q' : HttpRequest} (ha : e.answer = ⟨.send q',.ok response⟩) (hs : response.status = 412) :
    Explains (dialect R F) (.put location payload mode : Call (BindingM Unit))
      (.error (failedPutPrecondition location mode)) cs := by
  cases h with
  | pathless ha' h500 =>
    cases ha.symm.trans ha'
    omega
  | @answered _ x hserve ha' =>
    cases ha.symm.trans ha'
    rcases x with error | _ | object
    · cases hs
    · rcases hserve.does with ⟨heval,_,_⟩ | ⟨_,_,_,_,hv,_⟩
      · have hrefused : ¬ (dialect R F).Permits location mode (e.before.objects (bridgeKey F location)) := by
          rw [permits_iff F hq, heval]
          simp
        exact .refused (D := dialect R F) hrefused
      · cases hv
    · cases hs

/-- The headers of a response that describes an object, as they arrive. -/
structure Carries (F : Formats) (object : Object) (response : HttpResponse) : Prop where
  etag : response.header "etag" = some object.httpEtag
  version : response.header "x-slate-version" = some (F.arrives object.version)
  size : response.header "x-slate-size" = some (toString object.size)
  uploaded : response.header "x-slate-uploaded" = some (F.arrives (F.toISOString object.uploaded))

theorem carries_of_headers (h : response.headers = objectHeaders F object) : Carries F object (response.deliver F) := by
  constructor
  · simp [HttpResponse.header, HttpResponse.deliver, received, h, objectHeaders, Object.httpEtag, arrives_quoted]
  · simp [HttpResponse.header, HttpResponse.deliver, received, h, objectHeaders, List.lookup_cons]
  · simp [HttpResponse.header, HttpResponse.deliver, received, h, objectHeaders, List.lookup_cons]
    exact arrives_toString F object.size
  · simp [HttpResponse.header, HttpResponse.deliver, received, h, objectHeaders, List.lookup_cons]

theorem Carries.result {result : PutResult} (h : Carries F object response) (hr : putResult response = .ok result) :
    result = (dialect R F).result object := by
  obtain ⟨tag,htag,hr⟩ := bind_ok.mp hr
  obtain ⟨version,hversion,hr⟩ := bind_ok.mp hr
  cases hr
  rw [headerValue_some htag h.etag, headerValue_some hversion h.version]
  rfl

theorem Answered.stored {payload : List Bytes} {result : PutResult} (hq : putRequest location mode = .ok q)
    (h : Answered R F e (.put (bridgeKey F location) payload.flatten (.headers (received F q.headers))) (putResponse F) cs)
    {q' : HttpRequest} (ha : e.answer = ⟨.send q',.ok response⟩) (hs : isSuccess response.status = true)
    (hr : putResult response = .ok result) :
    Explains (dialect R F) (.put location payload mode : Call (BindingM Unit)) (.ok (.put result)) cs := by
  cases h with
  | pathless ha' h500 =>
    cases ha.symm.trans ha'
    rw [h500] at hs
    cases hs
  | @answered _ x hserve ha' =>
    cases ha.symm.trans ha'
    rcases x with error | _ | object
    · cases hs
    · cases hs
    · rcases hserve.does with ⟨_,hv,_⟩ | ⟨heval,o,_,hcontent,hv,_⟩
      · cases hv
      · cases hv
        have hcarries : Carries F object ((objectResponse F object).deliver F) := carries_of_headers rfl
        rw [hcarries.result (R := R) hr]
        exact .stored (D := dialect R F) ((permits_iff F hq _).mpr heval) hcontent

theorem Answered.deletes
    (h : Answered R F e (.delete (bridgeKey F location)) (fun _ => emptyResponse 204) cs) :
    Deletes (dialect R F) location cs := by
  cases h with
  | pathless => exact .unreached
  | answered hs ha => exact deletes_of_serve (D := dialect R F) hs

theorem Answered.deleted (h : Answered R F e (.delete (bridgeKey F location)) (fun _ => emptyResponse 204) cs)
    {q' : HttpRequest} (ha : e.answer = ⟨.send q',.ok response⟩) (hs : isSuccess response.status = true) :
    cs = [.delete () (bridgeKey F location)] := by
  cases h with
  | pathless ha' h500 =>
    cases ha.symm.trans ha'
    rw [h500] at hs
    cases hs
  | @answered _ x hserve ha' =>
    cases ha.symm.trans ha'
    cases x with
    | error error => cases hs
    | ok u => rfl

/-- How an event answered a read request: what it found, and the body where there is one. -/
inductive ReadAnswer (R : Rules) (F : Formats) (location : Path) (head : Bool) (headers : Headers) (e : BridgeEvent ι) :
    List BucketCommand → Prop
  | failed (h : ∀ q response, e.answer = ⟨.send q,.ok response⟩ → response.status ≠ 404 ∧ isSuccess response.status = false)
      {cs : List BucketCommand} (hreads : Reads (dialect R F) location cs) : ReadAnswer R F location head headers e cs
  | missing (h : ∀ q response, e.answer = ⟨.send q,.ok response⟩ → isSuccess response.status = false) :
      ReadAnswer R F location head headers e [.get () (bridgeKey F location) none]
  | found {object : Object} (h : ∀ q response, e.answer = ⟨.send q,.ok response⟩ → response.status ≠ 404 ∧
        Carries F object response ∧ (head = false → ∃ body, response.body = .bytes body ∧
          R.read (.headers ((readRequest location head headers).deliver F).headers)
            (.headers ((readRequest location head headers).deliver F).headers) object = some (some body))) :
      ReadAnswer R F location head headers e [.get () (bridgeKey F location) (some object)]

theorem ReadAnswer.reads {head : Bool} {headers : Headers} (h : ReadAnswer R F location head headers e cs) :
    Reads (dialect R F) location cs := by
  cases h with
  | failed _ hreads => exact hreads
  | missing => exact .read none
  | found => exact .read _

end Responses

section Outcomes
variable {F : Formats} {lib : Crate} {tr : List ((q : Exchange) × Answer q)} {os : List (Counter × ℕ)}
  {location : Path} {options : GetOptions} {mode : PutMode} {payload : List Bytes}

inductive GetOutcome (F : Formats) (lib : Crate) (location : Path) (options : GetOptions) :
    List ((q : Exchange) × Answer q) → Except Error GetResult → Prop
  | failed (tr : List ((q : Exchange) × Answer q)) {e : Error} (he : ∀ path source, e ≠ .notFound path source) :
      GetOutcome F lib location options tr (.error e)
  | missing {headers : Headers} {response : HttpResponse} (hheaders : readHeaders F lib options = .ok headers)
      (hs : response.status = 404) :
      GetOutcome F lib location options [⟨.send (readRequest location options.head headers),.ok response⟩]
        (.error (.notFound location.raw "R2 object not found"))
  | read {headers : Headers} {response : HttpResponse} {result : GetResult}
      (hheaders : readHeaders F lib options = .ok headers) (hs : isSuccess response.status = true)
      (hmetadata : objectMeta F location response = .ok result.metadata)
      (hbounds : returnedRange lib options.range result.metadata.size = .ok result.range)
      (hpayload : result.payload = if options.head then [] else response.body.arrayBuffer F) :
      GetOutcome F lib location options [⟨.send (readRequest location options.head headers),.ok response⟩] (.ok result)

end Outcomes

section Places
variable {F : Formats} {lib : Crate} {location : Path} {options : GetOptions} {mode : PutMode}

def Sends (n : ℕ) (Q : HttpRequest → Prop) (m : ℕ) (q : Exchange) : Prop :=
  m = n ∧ (∃ request, q = .send request ∧ Q request) ∨ m = n + 1 ∧ ∃ body, q = .receive body

end Places

section Copies
variable {F : Formats} {lib : Crate} {source target : Path} {tr : List ((q : Exchange) × Answer q)}
  {os : List (Counter × ℕ)} {r : Exchange}

end Copies

section Runs
variable {ι : Type} [DecidableEq ι] {R : Rules} {F : Formats} {lib : Crate} {calls : ι → Call (BindingM Unit)}
  {s : State} {es : List (BridgeEvent ι)} {t : System ι State Exchange Answer (Counter × ℕ) Error Adapters.Outcome}
  {i : ι} {location : Path} {options : GetOptions} {mode : PutMode} {payload : List Bytes}
  {block : BridgeEvent ι → List BucketCommand}

section
variable (h : Run (network (Serve R) F) (start s (fun i => perform F lib (calls i))) es t)
  (hblock : ∀ e ∈ es, NarratedBy R F e (block e))
include h hblock

end

end Runs

end SlatedbCloudflare.BindingStore
