import SlatedbCloudflare.Container.Network
import SlatedbCloudflare.Multipart.AdapterCall

/-! # The object that a request is about

A location travels in a header. The bridge acts on the key that it finds there.
-/
namespace SlatedbCloudflare.BindingStore
open Programs ObjectStore R2 Http Bridge Multipart

abbrev BucketReplies := List ((r : R2.Request) × R2.Reply r)

/-- The bridge handles the requests that reach it, and its bucket gives these replies.
Of a request that the client sees fail, it may have handled any part. -/
inductive Bridged (F : Formats) : UploadReplies → BucketReplies → Prop
  | nil : Bridged F [] []
  | handled {q : HttpRequest} {response : HttpResponse} {w ws : BucketReplies} {os : List String}
      {tr : UploadReplies} (h : Returns (handleR2 F (q.deliver F)) w os (.ok response))
      (rest : Bridged F tr ws) : Bridged F (⟨.store (.send q),.ok (response.deliver F)⟩ :: tr) (w ++ ws)
  | lost {q : HttpRequest} {p : WorkerM HttpResponse} {w ws : BucketReplies} {os : List String}
      {tr : UploadReplies} (h : Consumes (handleR2 F (q.deliver F)) w os p) (e : String)
      (rest : Bridged F tr ws) : Bridged F (⟨.store (.send q),.error e⟩ :: tr) (w ++ ws)
  | received {body : Body} (x : Answer (.receive body)) {tr : UploadReplies} {ws : BucketReplies}
      (rest : Bridged F tr ws) : Bridged F (⟨.store (.receive body),x⟩ :: tr) ws
  | pushed {part : ℕ × String} (x : Except String Unit) {tr : UploadReplies} {ws : BucketReplies}
      (rest : Bridged F tr ws) : Bridged F (⟨.push part,x⟩ :: tr) ws
  | read (x : Except String (List (ℕ × String))) {tr : UploadReplies} {ws : BucketReplies}
      (rest : Bridged F tr ws) : Bridged F (⟨.parts,x⟩ :: tr) ws

/-- Each call on the location acts on the key of its string, or fails without a request
on the bucket. -/
def AddressesOwn (F : Formats) (lib : Crate) (location : Path) : Prop :=
  ∀ call tr os r ws, AdapterCall.location call = some location → Returns (run F lib call) tr os r →
    Bridged F tr ws → (∀ w ∈ ws, w.1.objectKey = some location.raw) ∧ (ws = [] → ∃ e, r = .error e)

/-- The location cannot be sent, names nothing, or arrives as it is. -/
def Travels (F : Formats) (location : Path) : Prop :=
  F.isHeaderValue location.raw = true → bridgeKey F location = "" ∨ bridgeKey F location = location.raw

structure Names (F : Formats) (location : Path) (q : HttpRequest) : Prop where
  path : q.headers.lookup "x-slate-path" = some location.raw
  notList : (q.deliver F).header "x-slate-operation" ≠ some "list"
  sent : q.headers.all (fun h => F.isHeaderValue h.2) = true

def Exchange.Names (F : Formats) (location : Path) (x : Exchange) : Prop :=
  ∀ q, x = .send q → BindingStore.Names F location q

section Naming
variable {F : Formats} {lib : Crate} {location : Path} {q : HttpRequest}

theorem Names.headerValue (h : Names F location q) : F.isHeaderValue location.raw = true := by
  have hall := List.all_eq_true.mp h.sent
  obtain ⟨a,b,hab,_⟩ := List.lookup_eq_some_iff.mp h.path
  exact hall ("x-slate-path",location.raw) (by rw [hab]; simp)

theorem Names.objectPath (h : Names F location q) {k : String} (hk : Bridge.objectPath (q.deliver F) = .ok k) :
    k = bridgeKey F location ∧ k ≠ "" := by
  have hheader : (q.deliver F).header "x-slate-path" = some (bridgeKey F location) := by
    rw [HttpRequest.header, HttpRequest.deliver, lookup_received, h.path]
    rfl
  simp only [Bridge.objectPath, hheader] at hk
  split at hk
  · cases hk
  next hne =>
    cases hk
    exact ⟨rfl,hne⟩

theorem names_plain {q : HttpRequest} (hpath : q.headers.lookup "x-slate-path" = some location.raw)
    (ho : q.headers.lookup "x-slate-operation" = none ∨ ∃ operation ∈ ["multipart-start","multipart-part",
      "multipart-complete","multipart-abort"], q.headers.lookup "x-slate-operation" = some operation)
    (hsent : q.headers.all (fun h => F.isHeaderValue h.2) = true) : Names F location q := by
  refine ⟨hpath,?_,hsent⟩
  rw [HttpRequest.header, HttpRequest.deliver, lookup_received]
  rcases ho with ho | ⟨operation,hmem,ho⟩
  · rw [ho]
    intro h
    cases h
  · have hprintable : ∀ operation ∈ ["multipart-start","multipart-part","multipart-complete","multipart-abort"],
        isPrintable operation = true ∧ operation ≠ "list" := by decide
    obtain ⟨harrives,hother⟩ := hprintable operation hmem
    rw [ho, Option.map_some, arrives_printable F harrives]
    intro h
    exact hother (Option.some.inj h)

theorem send_names (hpath : q.headers.lookup "x-slate-path" = some location.raw)
    (ho : q.headers.lookup "x-slate-operation" = none ∨ ∃ operation ∈ ["multipart-start","multipart-part",
      "multipart-complete","multipart-abort"], q.headers.lookup "x-slate-operation" = some operation) :
    (send F q).Asks (Exchange.Names F location) := by
  refine send_asks fun hsent => ?_
  rintro _ ⟨⟩
  exact names_plain hpath ho hsent

theorem receive_names {α : Type} (response : HttpResponse) (decode : Json → Option α) :
    (checkResponse F response).Asks (Exchange.Names F location) ∧
      (receiveJson F response decode).Asks (Exchange.Names F location) := by
  constructor
  · exact checkResponse_asks nofun
  · refine Prog.Asks.bind ⟨nofun,fun x => by cases x <;> trivial⟩ fun body => ?_
    refine Prog.Asks.bind (by cases body.toJson F <;> trivial) fun document => ?_
    cases decode document <;> trivial

/-- A request about the location that names no operation and can be sent. -/
structure Plain (F : Formats) (location : Path) (q : HttpRequest) : Prop where
  path : q.headers.lookup "x-slate-path" = some location.raw
  operation : q.headers.lookup "x-slate-operation" = none
  sent : q.headers.all (fun h => F.isHeaderValue h.2) = true

theorem Plain.names (h : Plain F location q) : Names F location q := names_plain h.path (.inl h.operation) h.sent

section Plain
variable {P : Exchange → Prop} (hplain : ∀ q, Plain F location q → P (.send q))
  (hreceive : ∀ body, P (.receive body))
include hplain

theorem send_plain (hpath : q.headers.lookup "x-slate-path" = some location.raw)
    (ho : q.headers.lookup "x-slate-operation" = none) : (send F q).Asks P :=
  send_asks fun hsent => hplain q ⟨hpath,ho,hsent⟩

include hreceive

theorem putOpts_plain (payload : List Bytes) (mode : PutMode) : (putOpts F location payload mode).Asks P := by
  refine putOpts_asks payload (fun q hq => ?_) hreceive
  obtain ⟨_,hheaders⟩ := putRequest_eq hq
  apply send_plain hplain
  · rw [hheaders]
    rfl
  · rw [hheaders]
    cases mode with
    | overwrite | create => rfl
    | update version => cases htag : version.eTag <;> simp [modeHeaders, htag, List.lookup_cons]

theorem getOpts_plain (options : GetOptions) : (getOpts F lib location options).Asks P := by
  unfold getOpts
  refine Prog.Asks.bind trivial fun _ => ?_
  split
  · trivial
  cases hheaders : readHeaders F lib options with
  | error e => trivial
  | ok headers =>
    simp only [Prog.orElse_ok, Prog.ok_bind]
    refine (send_plain hplain rfl ?_).bind fun response => ?_
    · have hnone := readHeaders_names hheaders
      simpa [readRequest, request, List.lookup_cons] using hnone
    · split
      · trivial
      · refine (checkResponse_asks (hreceive _)).bind fun response => ?_
        refine Prog.Asks.bind (by cases objectMeta F location response <;> trivial) fun metadata => ?_
        refine Prog.Asks.bind (by cases lib.checkPreconditions options metadata <;> trivial) fun _ => ?_
        refine Prog.Asks.bind (by cases returnedRange lib options.range metadata.size <;> trivial) fun _ => ?_
        trivial

theorem delete_plain : (BindingStore.delete F location).Asks P := by
  refine Prog.Asks.bind trivial fun _ => (send_plain hplain rfl rfl).bind fun response => ?_
  exact (checkResponse_asks (hreceive _)).bind fun _ => trivial

end Plain

theorem plain_names (q : HttpRequest) (h : Plain F location q) : Exchange.Names F location (.send q) := by
  rintro _ ⟨⟩
  exact h.names

theorem putOpts_names (payload : List Bytes) (mode : PutMode) :
    (putOpts F location payload mode).Asks (Exchange.Names F location) :=
  putOpts_plain plain_names (fun _ => nofun) payload mode

theorem getOpts_names (options : GetOptions) :
    (getOpts F lib location options).Asks (Exchange.Names F location) :=
  getOpts_plain plain_names (fun _ => nofun) options

theorem delete_names : (BindingStore.delete F location).Asks (Exchange.Names F location) :=
  delete_plain plain_names fun _ => nofun

theorem putMultipartOpts_names : (putMultipartOpts F location).Asks (Exchange.Names F location) := by
  refine Prog.Asks.bind trivial fun _ => (send_names rfl (.inr ⟨_,by decide,rfl⟩)).bind fun response => ?_
  refine (checkResponse_asks nofun).bind fun response => ?_
  exact (receive_names response multipartStarted).2.bind fun _ => trivial

theorem sendPart_names (uploadId : String) (partNumber : ℕ) (data : List Bytes) :
    (sendPart F location uploadId partNumber data).Asks (Exchange.Names F location) := by
  refine (send_names rfl (.inr ⟨"multipart-part",by decide,rfl⟩)).bind fun response => ?_
  refine (checkResponse_asks nofun).bind fun response => ?_
  exact (receive_names response multipartPart).2.bind fun _ => trivial

theorem completeParts_names (uploadId : String) (parts : List (ℕ × String)) :
    (completeParts F location uploadId parts).Asks (Exchange.Names F location) := by
  refine (send_names rfl (.inr ⟨"multipart-complete",by decide,rfl⟩)).bind fun response => ?_
  refine (checkResponse_asks nofun).bind fun response => .bind trivial fun _ => ?_
  cases putResult response <;> trivial

theorem uploadPart_names (uploadId : String) (partNumber : ℕ) (data : List Bytes) :
    (uploadPart F location uploadId partNumber data).Asks
      (fun d => ∀ x, d = .store x → Exchange.Names F location x) := by
  refine (onStore_asks ((sendPart_names uploadId partNumber data).imp ?_)).bind fun part => ?_
  · rintro x hx _ ⟨⟩
    exact hx
  · exact Prog.Asks.bind ⟨nofun,fun _ => trivial⟩ fun x => by cases x <;> trivial

theorem completeUpload_names (uploadId : String) : (completeUpload F location uploadId).Asks
    (fun d => ∀ x, d = .store x → Exchange.Names F location x) := by
  refine Prog.Asks.bind ⟨nofun,fun _ => trivial⟩ fun x => ?_
  refine Prog.Asks.bind (by cases x <;> trivial) fun parts => ?_
  refine onStore_asks ((completeParts_names uploadId (sortParts parts)).imp ?_)
  rintro x hx _ ⟨⟩
  exact hx

theorem abortUpload_names (uploadId : String) : (abortUpload F location uploadId).Asks
    (fun d => ∀ x, d = .store x → Exchange.Names F location x) := by
  have hsent : (send F (abortRequest location uploadId) >>= fun response =>
      checkResponse F response >>= fun _ => pure ()).Asks (Exchange.Names F location) :=
    (send_names rfl (.inr ⟨"multipart-abort",by decide,rfl⟩)).bind fun response =>
      (checkResponse_asks nofun).bind fun _ => trivial
  refine onStore_asks (hsent.imp ?_)
  rintro x hx _ ⟨⟩
  exact hx

theorem run_names {call : AdapterCall} (hc : call.location = some location) : (run F lib call).Asks
    (fun d => ∀ x, d = .store x → Exchange.Names F location x) := by
  have hstore : ∀ {p : BindingM Unit}, p.Asks (Exchange.Names F location) →
      (onStore p).Asks (fun d => ∀ x, d = .store x → Exchange.Names F location x) := by
    intro p hp
    refine onStore_asks (hp.imp ?_)
    rintro x hx _ ⟨⟩
    exact hx
  cases call with
  | put location payload mode =>
    cases hc
    exact hstore ((putOpts_names payload mode).bind fun _ => trivial)
  | get location options =>
    cases hc
    exact hstore ((getOpts_names options).bind fun _ => trivial)
  | listPage => cases hc
  | delete location =>
    cases hc
    exact hstore (delete_names.bind fun _ => trivial)
  | start location =>
    cases hc
    exact hstore (putMultipartOpts_names.bind fun _ => trivial)
  | putPart h data =>
    cases hc
    simp only [run, Adapter.putPart]
    split
    · trivial
    · split
      · trivial
      · exact uploadPart_names h.uploadId h.nextPart data
  | complete h =>
    cases hc
    simp only [run, Adapter.complete]
    split
    · trivial
    · exact (completeUpload_names h.uploadId).bind fun _ => trivial
  | abort h =>
    cases hc
    simp only [run, Adapter.abort]
    split
    · trivial
    · exact abortUpload_names h.uploadId

end Naming

section Deliveries
variable {F : Formats} {lib : Crate} {location : Path} {α β : Type}

/-- The program succeeds only after a successful response. -/
def Delivered (p : BindingM α) : Prop := ∀ tr os a, Returns p tr os (.ok a) →
  ∃ q response, ⟨.send q,.ok response⟩ ∈ tr ∧ isSuccess response.status = true

theorem Delivered.then {p : BindingM α} (h : Delivered p) (f : α → BindingM β) : Delivered (p >>= f) := by
  intro tr os b hreturns
  obtain ⟨a,tr₁,tr₂,os₁,os₂,rfl,rfl,h₁,_⟩ := hreturns.of_bind_ok
  obtain ⟨q,response,hmem,hs⟩ := h tr₁ os₁ a h₁
  exact ⟨q,response,List.mem_append_left _ hmem,hs⟩

theorem Delivered.after {f : α → BindingM β} (h : ∀ a, Delivered (f a)) (p : BindingM α) :
    Delivered (p >>= f) := by
  intro tr os b hreturns
  obtain ⟨a,tr₁,tr₂,os₁,os₂,rfl,rfl,_,h₂⟩ := hreturns.of_bind_ok
  obtain ⟨q,response,hmem,hs⟩ := h a tr₂ os₂ b h₂
  exact ⟨q,response,List.mem_append_right _ hmem,hs⟩

theorem delivered_send (q : HttpRequest) (f : HttpResponse → BindingM α) :
    Delivered (send F q >>= fun response => checkResponse F response >>= f) := by
  intro tr os a h
  obtain ⟨response,tr',os',rfl,h₁⟩ := send_ok h
  exact ⟨q,response,List.mem_cons_self,(checkResponse_ok h₁).1⟩

theorem delivered_put (payload : List Bytes) (mode : PutMode) :
    Delivered (putOpts F location payload mode) := by
  intro tr os a h
  cases putOpts_returns h with
  | stored hq hs hr => exact ⟨_,_,List.mem_cons_self,hs⟩

theorem delivered_get (options : GetOptions) : Delivered (getOpts F lib location options) := by
  intro tr os a h
  obtain ⟨headers,response,_,rfl,hs,_⟩ := getOpts_returns h
  exact ⟨_,response,List.mem_cons_self,hs⟩

theorem delivered_part (uploadId : String) (partNumber : ℕ) (data : List Bytes) :
    Delivered (sendPart F location uploadId partNumber data) := delivered_send _ _

theorem delivered_complete (uploadId : String) (parts : List (ℕ × String)) :
    Delivered (completeParts F location uploadId parts) := delivered_send _ _

theorem onStore_delivered {p : BindingM α} (h : Delivered p) {tr : UploadReplies}
    {os : List (Counter × ℕ)} {a : α} (hr : Returns (onStore p) tr os (.ok a)) :
    ∃ q, ∃ response : HttpResponse, ⟨.store (.send q),.ok response⟩ ∈ tr ∧
      isSuccess response.status = true := by
  obtain ⟨tr',rfl,hp⟩ := onStore_returns hr
  obtain ⟨q,response,hmem,hs⟩ := h tr' os a hp
  exact ⟨q,response,List.mem_map.mpr ⟨_,hmem,rfl⟩,hs⟩

theorem uploadPart_delivered {uploadId : String} {partNumber : ℕ} {data : List Bytes} {tr : UploadReplies}
    {os : List (Counter × ℕ)} {a : Unit}
    (hr : Returns (uploadPart F location uploadId partNumber data) tr os (.ok a)) :
    ∃ q, ∃ response : HttpResponse, ⟨.store (.send q),.ok response⟩ ∈ tr ∧
      isSuccess response.status = true := by
  obtain ⟨part,tr₁,tr₂,os₁,os₂,rfl,rfl,h₁,_⟩ := hr.of_bind_ok
  obtain ⟨q,response,hmem,hs⟩ := onStore_delivered (delivered_part uploadId partNumber data) h₁
  exact ⟨q,response,List.mem_append_left _ hmem,hs⟩

theorem completeUpload_delivered {uploadId : String} {tr : UploadReplies} {os : List (Counter × ℕ)}
    {a : PutResult} (hr : Returns (completeUpload F location uploadId) tr os (.ok a)) :
    ∃ q, ∃ response : HttpResponse, ⟨.store (.send q),.ok response⟩ ∈ tr ∧
      isSuccess response.status = true := by
  obtain ⟨parts,tr₁,tr₂,os₁,os₂,rfl,rfl,_,h₁⟩ := hr.of_bind_ok
  obtain ⟨list,tr₃,tr₄,os₃,os₄,rfl,rfl,_,h₂⟩ := h₁.of_bind_ok
  obtain ⟨q,response,hmem,hs⟩ := onStore_delivered (delivered_complete uploadId _) h₂
  exact ⟨q,response,by simp [hmem],hs⟩

theorem run_delivered {call : AdapterCall} (hc : call.location = some location) {tr : UploadReplies}
    {os : List (Counter × ℕ)} {a : Unit} (hr : Returns (run F lib call) tr os (.ok a)) :
    ∃ q, ∃ response : HttpResponse, ⟨.store (.send q),.ok response⟩ ∈ tr ∧
      isSuccess response.status = true := by
  have hrefused : ∀ {β : Type} {e : Error} {f : β → BindingUploadM Unit},
      ¬ Returns (Prog.err e >>= f) tr os (.ok a) := by
    intro β e f h
    exact h.err_ne_ok.elim
  cases call with
  | put location payload mode => exact onStore_delivered ((delivered_put payload mode).then _) hr
  | get location options => exact onStore_delivered ((delivered_get options).then _) hr
  | listPage => cases hc
  | delete location =>
    exact onStore_delivered (Delivered.then (.after (fun _ => delivered_send _ _) (increment .deletes 1)) _) hr
  | start location =>
    exact onStore_delivered
      (Delivered.then (.after (fun _ => delivered_send _ _) (increment .multipartUploads 1)) _) hr
  | putPart h data =>
    simp only [run, Adapter.putPart] at hr
    split at hr
    · cases hr.of_err.2.2
    · split at hr
      · cases hr.of_err.2.2
      · exact uploadPart_delivered hr
  | complete h =>
    simp only [run, Adapter.complete] at hr
    split at hr
    · exact absurd hr hrefused
    · obtain ⟨result,tr₁,tr₂,os₁,os₂,rfl,rfl,h₁,_⟩ := hr.of_bind_ok
      obtain ⟨q,response,hmem,hs⟩ := completeUpload_delivered h₁
      exact ⟨q,response,List.mem_append_left _ hmem,hs⟩
  | abort h =>
    simp only [run, Adapter.abort] at hr
    split at hr
    · cases hr.of_err.2.2
    · exact onStore_delivered (delivered_send _ _) hr

end Deliveries

section Bridging
variable {F : Formats} {lib : Crate} {location : Path} {tr : UploadReplies} {ws : BucketReplies}

/-- The bucket is asked about the key that arrives, which names something. -/
theorem Bridged.keys (h : Bridged F tr ws)
    (hnames : ∀ x ∈ tr, ∀ y, x.1 = .store y → Exchange.Names F location y) :
    ∀ w ∈ ws, w.1.objectKey = some (bridgeKey F location) ∧ bridgeKey F location ≠ "" ∧
      F.isHeaderValue location.raw = true := by
  have hhandled : ∀ {q : HttpRequest} {w : BucketReplies} {os : List String} {p : WorkerM HttpResponse},
      Names F location q → Consumes (handleR2 F (q.deliver F)) w os p → ∀ x ∈ w,
        x.1.objectKey = some (bridgeKey F location) ∧ bridgeKey F location ≠ "" ∧
          F.isHeaderValue location.raw = true := by
    intro q w os p hq hc x hx
    obtain ⟨k,hk,hkey⟩ := hc.asks (handleR2_key hq.notList) x hx
    obtain ⟨rfl,hne⟩ := hq.objectPath hk
    exact ⟨hkey,hne,hq.headerValue⟩
  induction h with
  | nil => exact fun w hw => absurd hw List.not_mem_nil
  | handled h _ ih =>
    obtain ⟨hfirst,hrest⟩ := List.forall_mem_cons.mp hnames
    intro w hw
    rcases List.mem_append.mp hw with hw | hw
    · exact hhandled (hfirst _ rfl _ rfl) h w hw
    · exact ih hrest w hw
  | lost h e _ ih =>
    obtain ⟨hfirst,hrest⟩ := List.forall_mem_cons.mp hnames
    intro w hw
    rcases List.mem_append.mp hw with hw | hw
    · exact hhandled (hfirst _ rfl _ rfl) h w hw
    · exact ih hrest w hw
  | received x _ ih => exact ih (List.forall_mem_cons.mp hnames).2
  | pushed x _ ih => exact ih (List.forall_mem_cons.mp hnames).2
  | read x _ ih => exact ih (List.forall_mem_cons.mp hnames).2

theorem Bridged.touched (h : Bridged F tr ws) {q : HttpRequest} {response : HttpResponse}
    (hmem : ⟨.store (.send q),.ok response⟩ ∈ tr) (hs : isSuccess response.status = true) : ws ≠ [] := by
  induction h with
  | nil => exact absurd hmem List.not_mem_nil
  | @handled q' response' w ws os tr h _ ih =>
    intro hnil
    obtain ⟨hw,hws⟩ := List.append_eq_nil_iff.mp hnil
    rcases List.mem_cons.mp hmem with heq | hmem
    · cases heq
      subst hw
      have huntouched := handleR2_untouched h
      have hlt := success_lt hs
      have hstatus : (response'.deliver F).status = response'.status := rfl
      omega
    · exact ih hmem hws
  | lost h e _ ih =>
    intro hnil
    obtain ⟨_,hws⟩ := List.append_eq_nil_iff.mp hnil
    rcases List.mem_cons.mp hmem with heq | hmem
    · cases heq
    · exact ih hmem hws
  | received x _ ih =>
    rcases List.mem_cons.mp hmem with heq | hmem
    · cases heq
    · exact ih hmem
  | pushed x _ ih =>
    rcases List.mem_cons.mp hmem with heq | hmem
    · cases heq
    · exact ih hmem
  | read x _ ih =>
    rcases List.mem_cons.mp hmem with heq | hmem
    · cases heq
    · exact ih hmem

theorem addressesOwn_of_travels (h : Travels F location) : AddressesOwn F lib location := by
  intro call tr os r ws hc hr hb
  have hkeys := hb.keys (fun x hx y hy => hr.asks (run_names hc) x hx y hy)
  constructor
  · intro w hw
    obtain ⟨hkey,hne,htext⟩ := hkeys w hw
    rw [hkey, (h htext).resolve_left hne]
  · intro hnil
    cases r with
    | error e => exact ⟨e,rfl⟩
    | ok a =>
      obtain ⟨q,response,hmem,hs⟩ := run_delivered hc hr
      exact absurd hnil (hb.touched hmem hs)

/-- A location that arrives as another key is deleted under that key. -/
theorem travels_of_addressesOwn (h : AddressesOwn F lib location) : Travels F location := by
  intro htext
  by_contra hne
  obtain ⟨hempty,hother⟩ := not_or.mp hne
  have hsent : (request .delete location).headers.all (fun x => F.isHeaderValue x.2) = true := by
    simp [request, htext]
  have hpath : Bridge.objectPath ((request .delete location).deliver F) = .ok (bridgeKey F location) :=
    if_neg hempty
  have hhandled := handleR2_delete (F := F) hpath rfl rfl
  obtain ⟨os,hreturns⟩ := once_returns (.delete (bridgeKey F location)) (fun _ => emptyResponse 204) (.ok ())
  rw [← hhandled] at hreturns
  have hrun : Returns (run F lib (.delete location))
      [⟨.store (.send (request .delete location)),.ok ((emptyResponse 204).deliver F)⟩] [(.deletes,1)] (.ok ()) := by
    change Returns (onStore ((BindingStore.delete F location) >>= _)) _ _ _
    simp only [BindingStore.delete, send, hsent, if_true]
    exact .emit (.call (.refl _))
  obtain ⟨hkeys,_⟩ := h (.delete location) _ _ _ _ rfl hrun (.handled hreturns .nil)
  have hkey := hkeys ⟨.delete (bridgeKey F location),.ok ()⟩ (by simp)
  exact hother (Option.some.inj hkey)

end Bridging

/-- The bridge addresses the object that the client named exactly for the locations
that arrive as they are, unless they do not arrive at all. -/
theorem addressesOwn_iff (F : Formats) (lib : Crate) (location : Path) :
    AddressesOwn F lib location ↔ Travels F location :=
  ⟨travels_of_addressesOwn,addressesOwn_of_travels⟩

/-- A leading blank is lost, and the object of another path is addressed. -/
theorem blank_path_aliases : ¬ AddressesOwn .visible .standard ⟨" a",by decide⟩ := by
  intro h
  have harrives : bridgeKey .visible ⟨" a",by decide⟩ = "a" := by
    rw [bridgeKey, arrives_text _ (by decide)]
    decide
  have htravels := travels_of_addressesOwn h (by decide)
  rw [harrives] at htravels
  exact absurd htravels (by decide)

end SlatedbCloudflare.BindingStore
