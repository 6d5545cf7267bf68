import SlatedbCloudflare.Library.Traversals
import SlatedbCloudflare.Container.BindingStore

/-! # What the calls of the container's store can do

For each call its possible exchanges with the bridge and the result it draws from
them, whatever the bridge answers.
-/
namespace SlatedbCloudflare.BindingStore
open Programs Traversals ObjectStore R2 Http

section Exchanges
variable {α : Type} {F : Formats} {lib : Crate} {tr : List ((q : Exchange) × Answer q)}
  {os : List (Counter × ℕ)}

theorem send_returns {q : HttpRequest} {f : HttpResponse → BindingM α} {r : Except Error α}
    (h : Returns (send F q >>= f) tr os r) :
    (tr = [] ∧ ∃ e, r = .error (generic e)) ∨
      (∃ e, tr = [⟨.send q,.error e⟩] ∧ r = .error (generic e)) ∨
      ∃ response tr' os', tr = ⟨.send q,.ok response⟩ :: tr' ∧ Returns (f response) tr' os' r := by
  unfold send at h
  split at h
  · obtain ⟨x,tr',rfl,h₁⟩ := h.of_call
    rcases x with e | response
    · obtain ⟨_,_,h₂⟩ := h₁.of_emit
      obtain ⟨rfl,_,rfl⟩ := h₂.of_err
      exact .inr (.inl ⟨e,rfl,rfl⟩)
    · exact .inr (.inr ⟨response,tr',os,rfl,h₁⟩)
  · obtain ⟨_,_,h₁⟩ := h.of_emit
    obtain ⟨rfl,_,rfl⟩ := h₁.of_err
    exact .inl ⟨rfl,_,rfl⟩

/-- A call that succeeds past its `send` had a successful response. -/
theorem send_ok {α : Type} {q : HttpRequest} {f : HttpResponse → BindingM α} {a : α}
    (h : Returns (send F q >>= f) tr os (.ok a)) :
    ∃ response tr' os', tr = ⟨.send q,.ok response⟩ :: tr' ∧ Returns (f response) tr' os' (.ok a) := by
  rcases send_returns h with ⟨_,_,hr⟩ | ⟨_,_,hr⟩ | h
  · cases hr
  · cases hr
  · exact h

theorem checkResponse_returns {response : HttpResponse} {f : HttpResponse → BindingM α}
    {r : Except Error α} (h : Returns (checkResponse F response >>= f) tr os r) :
    (isSuccess response.status = true ∧ Returns (f response) tr os r) ∨
      (isSuccess response.status = false ∧ ∃ x e, tr = [⟨.receive response.body,x⟩] ∧
        r = .error (generic e)) := by
  unfold checkResponse at h
  split at h
  next hs => exact .inl ⟨hs,h⟩
  next hs =>
    obtain ⟨x,tr',rfl,h₁⟩ := h.of_call
    obtain ⟨rfl,_,rfl⟩ := h₁.of_err
    exact .inr ⟨by simpa using hs,x,_,rfl,rfl⟩

theorem checkResponse_ok {α : Type} {response : HttpResponse} {f : HttpResponse → BindingM α} {a : α}
    (h : Returns (checkResponse F response >>= f) tr os (.ok a)) :
    isSuccess response.status = true ∧ Returns (f response) tr os (.ok a) := by
  rcases checkResponse_returns h with h | ⟨_,_,_,_,hr⟩
  · exact h
  · cases hr

theorem headerValue_error {response : HttpResponse} {name : String} {e : Error}
    (h : headerValue response name = .error e) : ∃ message, e = generic message := by
  unfold headerValue at h
  split at h
  · cases h
  · split at h
    · cases h
    · cases h
      exact ⟨_,rfl⟩

theorem headerValue_some {name value : String} {v : Option String}
    (h : headerValue response name = .ok v) (hv : response.header name = some value) :
    v = some value := by
  simp only [headerValue, hv] at h
  split at h
  · exact (Except.ok.inj h).symm
  · cases h

theorem putResult_error {response : HttpResponse} {e : Error} (h : putResult response = .error e) :
    ∃ message, e = generic message := by
  unfold putResult at h
  rcases bind_error.mp h with h | ⟨tag,_,h⟩
  · exact headerValue_error h
  · rcases bind_error.mp h with h | ⟨version,_,h⟩
    · exact headerValue_error h
    · cases h

theorem putResult_eTag {response : HttpResponse} {result : PutResult}
    (h : putResult response = .ok result) : headerValue response "etag" = .ok result.eTag := by
  obtain ⟨tag,htag,h⟩ := bind_ok.mp h
  obtain ⟨version,_,h⟩ := bind_ok.mp h
  cases h
  exact htag

theorem objectMeta_eTag {location : Path} {response : HttpResponse} {metadata : ObjectMeta}
    (h : objectMeta F location response = .ok metadata) :
    headerValue response "etag" = .ok metadata.eTag := by
  obtain ⟨size,_,h⟩ := bind_ok.mp h
  obtain ⟨number,_,h⟩ := bind_ok.mp h
  obtain ⟨date,_,h⟩ := bind_ok.mp h
  obtain ⟨uploaded,_,h⟩ := bind_ok.mp h
  obtain ⟨tag,htag,h⟩ := bind_ok.mp h
  obtain ⟨version,_,h⟩ := bind_ok.mp h
  cases h
  exact htag

/-- What the exchanges and the result of one `putOpts` can be. -/
inductive PutOutcome (location : Path) (payload : List Bytes) (mode : PutMode) :
    List ((q : Exchange) × Answer q) → Except Error PutResult → Prop
  | unsupported {e : Error} (h : putRequest location mode = .error e) :
      PutOutcome location payload mode [] (.error e)
  | unsent (e : String) : PutOutcome location payload mode [] (.error (generic e))
  | refused {q : HttpRequest} (h : putRequest location mode = .ok q) {response : HttpResponse}
      (hs : response.status = 412) :
      PutOutcome location payload mode
        [⟨.send { q with body := .bytes payload.flatten },.ok response⟩]
        (.error (failedPutPrecondition location mode))
  | failed (tr : List ((q : Exchange) × Answer q)) (e : String) :
      PutOutcome location payload mode tr (.error (generic e))
  | stored {q : HttpRequest} (h : putRequest location mode = .ok q) {response : HttpResponse}
      (hs : isSuccess response.status = true) {result : PutResult}
      (hr : putResult response = .ok result) :
      PutOutcome location payload mode
        [⟨.send { q with body := .bytes payload.flatten },.ok response⟩] (.ok result)

theorem putOpts_returns {location : Path} {payload : List Bytes} {mode : PutMode}
    {r : Except Error PutResult} (h : Returns (putOpts F location payload mode) tr os r) :
    PutOutcome location payload mode tr r := by
  unfold putOpts at h
  obtain ⟨_,_,h₁⟩ := h.of_emit
  cases hq : putRequest location mode with
  | error e =>
    simp only [hq, Prog.orElse_error] at h₁
    obtain ⟨rfl,_,rfl⟩ := h₁.of_err
    exact .unsupported hq
  | ok q =>
    simp only [hq, Prog.orElse_ok] at h₁
    rcases send_returns h₁ with ⟨rfl,e,rfl⟩ | ⟨e,rfl,rfl⟩ | ⟨response,tr',os',rfl,h₂⟩
    · exact .unsent e
    · exact .failed _ e
    · split at h₂
      next hs =>
        obtain ⟨_,_,h₃⟩ := h₂.of_emit
        obtain ⟨rfl,_,rfl⟩ := h₃.of_err
        exact .refused hq hs
      next hs =>
        rcases checkResponse_returns h₂ with ⟨hsuccess,h₃⟩ | ⟨_,x,e,rfl,rfl⟩
        · obtain ⟨_,_,h₄⟩ := h₃.of_emit
          cases hr : putResult response with
          | error e =>
            simp only [hr, Prog.orElse_error] at h₄
            obtain ⟨rfl,_,rfl⟩ := h₄.of_err
            obtain ⟨message,rfl⟩ := putResult_error hr
            exact .failed _ message
          | ok result =>
            simp only [hr, Prog.orElse_ok] at h₄
            obtain ⟨rfl,_,rfl⟩ := h₄.of_ok
            exact .stored hq hsuccess hr
        · exact .failed _ e

theorem putOpts_sends {location : Path} (payload : List Bytes) {mode : PutMode} {q : HttpRequest}
    (hq : putRequest location mode = .ok q) (hsent : q.headers.all (fun h => F.isHeaderValue h.2) = true) :
    putOpts F location payload mode = .emit (.puts,1) (.call (.send { q with body := .bytes payload.flatten })
      fun x => Prog.orElse x failed >>= fun response =>
        if response.status = 412 then do
          increment .errors 1
          .err (failedPutPrecondition location mode)
        else do
          let response ← checkResponse F response
          increment .writtenBytes payload.flatten.length
          Prog.orElse (putResult response) .err) := by
  simp only [putOpts, hq, Prog.orElse_ok, Prog.ok_bind, send, hsent]
  rfl

theorem putOpts_answered {location : Path} {payload : List Bytes} {mode : PutMode} {q : HttpRequest}
    {r : Except Error PutResult} (hq : putRequest location mode = .ok q)
    (hsent : q.headers.all (fun h => F.isHeaderValue h.2) = true)
    (h : Returns (putOpts F location payload mode) tr os r) :
    ∃ x tr', tr = ⟨.send { q with body := .bytes payload.flatten },x⟩ :: tr' ∧
      ∀ response, x = .ok response →
        (response.status = 412 → r = .error (failedPutPrecondition location mode)) ∧
        (isSuccess response.status = true → ∀ result, putResult response = .ok result → r = .ok result) := by
  rw [putOpts_sends payload hq hsent] at h
  obtain ⟨_,_,h₁⟩ := h.of_emit
  obtain ⟨x,tr',rfl,h₂⟩ := h₁.of_call
  refine ⟨x,tr',rfl,?_⟩
  rintro response rfl
  simp only [Prog.orElse_ok, Prog.ok_bind] at h₂
  constructor
  · intro hs
    rw [if_pos hs] at h₂
    obtain ⟨_,_,h₃⟩ := h₂.of_emit
    exact h₃.of_err.2.2
  · intro hs result hresult
    have hne : response.status ≠ 412 := by
      intro h412
      rw [h412] at hs
      cases hs
    rw [if_neg hne] at h₂
    rcases checkResponse_returns h₂ with ⟨_,h₃⟩ | ⟨hfail,_⟩
    · obtain ⟨_,_,h₄⟩ := h₃.of_emit
      rw [hresult] at h₄
      exact h₄.of_ok.2.2
    · rw [hs] at hfail
      cases hfail

theorem completeParts_returns {location : Path} {uploadId : String} {parts : List (ℕ × String)}
    {result : PutResult} (h : Returns (completeParts F location uploadId parts) tr os (.ok result)) :
    ∃ response, tr = [⟨.send (completeRequest location uploadId (.json (partsJson parts))),
      .ok response⟩] ∧ isSuccess response.status = true ∧ putResult response = .ok result := by
  obtain ⟨response,tr',os',rfl,h₁⟩ := send_ok h
  obtain ⟨hs,h₂⟩ := checkResponse_ok h₁
  obtain ⟨_,_,h₃⟩ := h₂.of_emit
  obtain ⟨hv,rfl⟩ := Returns.of_result h₃
  exact ⟨response,rfl,hs,hv⟩

theorem getOpts_result {location : Path} {options : GetOptions} {result : GetResult}
    (h : Returns (getOpts F lib location options) tr os (.ok result)) :
    ∃ headers response, readHeaders F lib options = .ok headers ∧
      tr = [⟨.send (readRequest location options.head headers),.ok response⟩] ∧
      isSuccess response.status = true ∧ objectMeta F location response = .ok result.metadata ∧
      returnedRange lib options.range result.metadata.size = .ok result.range ∧
      result.payload = if options.head then [] else response.body.arrayBuffer F := by
  unfold getOpts at h
  obtain ⟨_,_,h₁⟩ := h.of_emit
  split at h₁
  · obtain ⟨_,_,hr⟩ := h₁.of_err
    cases hr
  · obtain ⟨headers,hheaders,h₂⟩ := Returns.of_orElse h₁
    obtain ⟨response,tr',os',rfl,h₃⟩ := send_ok h₂
    split at h₃
    · obtain ⟨_,_,hr⟩ := h₃.of_err
      cases hr
    · obtain ⟨hs,h₄⟩ := checkResponse_ok h₃
      obtain ⟨metadata,hmetadata,h₅⟩ := Returns.of_orElse h₄
      obtain ⟨_,_,h₆⟩ := Returns.of_orElse h₅
      obtain ⟨range,hrange,h₇⟩ := Returns.of_orElse h₆
      obtain ⟨rfl,_,hr⟩ := h₇.of_ok
      cases hr
      exact ⟨headers,response,hheaders,rfl,hs,hmetadata,hrange,rfl⟩

theorem getOpts_returns {location : Path} {options : GetOptions} {result : GetResult}
    (h : Returns (getOpts F lib location options) tr os (.ok result)) :
    ∃ headers response, readHeaders F lib options = .ok headers ∧
      tr = [⟨.send (readRequest location options.head headers),.ok response⟩] ∧
      isSuccess response.status = true ∧ objectMeta F location response = .ok result.metadata := by
  obtain ⟨headers,response,hheaders,htr,hs,hmetadata,_⟩ := getOpts_result h
  exact ⟨headers,response,hheaders,htr,hs,hmetadata⟩

theorem receiveJson_ok {α : Type} {response : HttpResponse} {decode : Json → Option α} {v : α}
    (h : Returns (receiveJson F response decode) tr os (.ok v)) :
    ∃ body document, tr = [⟨.receive response.body,.ok body⟩] ∧ body.toJson F = .ok document ∧
      decode document = some v := by
  simp only [receiveJson, receive, Prog.ask_bind, Prog.call_bind] at h
  obtain ⟨x,tr',rfl,h₁⟩ := h.of_call
  rcases x with error | body
  · obtain ⟨_,_,hr⟩ := h₁.of_err
    cases hr
  · cases hj : body.toJson F with
    | error error =>
      simp only [Prog.orElse_ok, Prog.ok_bind, hj] at h₁
      obtain ⟨_,_,hr⟩ := h₁.of_err
      cases hr
    | ok document =>
      simp only [Prog.orElse_ok, Prog.ok_bind, hj] at h₁
      cases hp : decode document with
      | none =>
        simp only [hp] at h₁
        obtain ⟨_,_,hr⟩ := h₁.of_err
        cases hr
      | some value =>
        simp only [hp] at h₁
        obtain ⟨rfl,_,hr⟩ := h₁.of_ok
        cases hr
        exact ⟨body,document,rfl,hj,hp⟩

theorem listPage_returns {keyPrefix cursor delimiter : Option String} {page : ListPage}
    (h : Returns (listPage F keyPrefix cursor delimiter) tr os (.ok page)) :
    ∃ response body document, tr = [⟨.send (listRequest (listQuery keyPrefix cursor delimiter)),
      .ok response⟩,⟨.receive response.body,.ok body⟩] ∧ isSuccess response.status = true ∧
      body.toJson F = .ok document ∧ ListPage.ofJson F document = some page := by
  unfold listPage at h
  obtain ⟨_,_,h₁⟩ := h.of_emit
  obtain ⟨response,tr',os',rfl,h₂⟩ := send_ok h₁
  obtain ⟨hs,h₃⟩ := checkResponse_ok h₂
  obtain ⟨body,document,rfl,hj,hp⟩ := receiveJson_ok h₃
  exact ⟨response,body,document,rfl,hs,hj,hp⟩

end Exchanges

def modeHeaders : PutMode → Headers
  | .overwrite => []
  | .create => [("if-none-match","*")]
  | .update version => (version.eTag.map (fun tag => ("if-match",tag))).toList

theorem putRequest_eq {location : Path} {mode : PutMode} {q : HttpRequest}
    (h : putRequest location mode = .ok q) :
    q.method = .put ∧ q.headers = ("x-slate-path",location.raw) :: modeHeaders mode := by
  cases mode with
  | overwrite | create =>
    cases h
    exact ⟨rfl,rfl⟩
  | update version =>
    cases htag : version.eTag with
    | none =>
      simp only [putRequest, htag] at h
      cases h
    | some tag =>
      simp only [putRequest, htag] at h
      cases h
      exact ⟨rfl,by simp [modeHeaders, htag, withHeader, request]⟩

theorem lookup_optional {α : Type} (o : Option α) (f : α → String) (name other : String) :
    (o.map (fun value => (name,f value))).toList.lookup other = if other = name then o.map f else none := by
  cases o with
  | none => simp
  | some value =>
    by_cases h : other = name
    · simp [h]
    · have hbeq : (other == name) = false := beq_false_of_ne h
      simp [List.lookup_cons, hbeq, h]

theorem lookup_tag (o : Option String) (name other : String) :
    (o.map (fun value => (name,value))).toList.lookup other = if other = name then o else none := by
  rw [lookup_optional o (fun value => value), Option.map_id']

/-- The headers that carry the conditions of a read. -/
def conditionHeaders (F : Formats) (options : GetOptions) : Headers :=
  (options.ifMatch.map (fun value => ("if-match",value))).toList ++
    (options.ifNoneMatch.map (fun value => ("if-none-match",value))).toList ++
    ((options.ifModifiedSince.bind F.toRfc2822).map (fun text => ("if-modified-since",text))).toList ++
    ((options.ifUnmodifiedSince.bind F.toRfc2822).map (fun text => ("if-unmodified-since",text))).toList

section Conditions
variable {lib : Crate} {options : GetOptions} {headers : Headers}

theorem conditionHeaders_lookup {name : String} : (conditionHeaders F options).lookup name =
    if name = "if-match" then options.ifMatch
    else if name = "if-none-match" then options.ifNoneMatch
    else if name = "if-modified-since" then options.ifModifiedSince.bind F.toRfc2822
    else if name = "if-unmodified-since" then options.ifUnmodifiedSince.bind F.toRfc2822
    else none := by
  simp only [conditionHeaders, List.lookup_append, lookup_tag]
  split
  next h => subst h; simp
  split
  next h => subst h; simp
  split
  next h => subst h; simp
  split
  next h => subst h; simp
  next => simp_all

theorem dateHeader_ok {name : String} {o : Option DateTime} : dateHeader F name o = .ok headers ↔
    (∀ date ∈ o, (F.toRfc2822 date).isSome = true) ∧
      headers = ((o.bind F.toRfc2822).map (fun text => (name,text))).toList := by
  rw [eq_comm (a := headers)]
  cases o with
  | none => simp [dateHeader]
  | some date => cases htext : F.toRfc2822 date <;> simp [dateHeader, htext]

theorem rangeHeaders_ok {range : Option GetRange} : rangeHeaders lib range = .ok headers ↔
    (range = none ∧ headers = []) ∨
      ∃ asked text, range = some asked ∧ rangeHeader lib asked = .ok text ∧ headers = [("range",text)] := by
  cases range with
  | none =>
    rw [eq_comm (a := headers)]
    simp [rangeHeaders]
  | some asked =>
    cases htext : rangeHeader lib asked with
    | error e => simp [rangeHeaders, htext, Except.map]
    | ok text =>
      rw [rangeHeaders, htext]
      constructor
      · intro h
        exact .inr ⟨asked,text,rfl,htext,(Except.ok.inj h).symm⟩
      · rintro (⟨h,_⟩ | ⟨_,_,hasked,hother,rfl⟩)
        · cases h
        · cases hasked
          cases htext.symm.trans hother
          rfl

theorem readHeaders_ok (h : readHeaders F lib options = .ok headers) :
    ∃ range, headers = conditionHeaders F options ++ range ∧
      ((options.range = none ∧ range = []) ∨
        ∃ asked text, options.range = some asked ∧ rangeHeader lib asked = .ok text ∧ range = [("range",text)]) := by
  obtain ⟨modified,hmodified,h⟩ := Traversals.bind_ok.mp h
  obtain ⟨unmodified,hunmodified,h⟩ := Traversals.bind_ok.mp h
  obtain ⟨range,hrange,h⟩ := Traversals.bind_ok.mp h
  obtain ⟨_,rfl⟩ := dateHeader_ok.mp hmodified
  obtain ⟨_,rfl⟩ := dateHeader_ok.mp hunmodified
  exact ⟨range,by simpa [conditionHeaders] using (Except.ok.inj h).symm,rangeHeaders_ok.mp hrange⟩

theorem readHeaders_names (h : readHeaders F lib options = .ok headers) :
    headers.lookup "x-slate-operation" = none := by
  obtain ⟨range,rfl,hrange⟩ := readHeaders_ok h
  rw [List.lookup_append, conditionHeaders_lookup]
  rcases hrange with ⟨_,rfl⟩ | ⟨_,text,_,_,rfl⟩ <;> simp

theorem readHeaders_range {range : GetRange} (hrange : options.range = some range)
    (h : readHeaders F lib options = .ok headers) :
    ∃ text, rangeHeader lib range = .ok text ∧ headers.lookup "range" = some text := by
  obtain ⟨added,rfl,⟨hnone,_⟩ | ⟨asked,text,hasked,htext,rfl⟩⟩ := readHeaders_ok h
  · rw [hrange] at hnone
    cases hnone
  · cases hrange.symm.trans hasked
    refine ⟨text,htext,?_⟩
    rw [List.lookup_append, conditionHeaders_lookup]
    simp

end Conditions

section Errors
variable {P : Error → Prop} {F : Formats}

theorem send_errs (h : ∀ e, P (generic e)) (q : HttpRequest) : (send F q).Errs P := by
  unfold send
  split
  · intro x
    cases x with
    | error e => exact h e
    | ok v => trivial
  · exact h _

theorem checkResponse_errs (h : ∀ e, P (generic e)) (response : HttpResponse) :
    (checkResponse F response).Errs P := by
  unfold checkResponse
  split
  · trivial
  · exact fun _ => h _

theorem receiveJson_errs (h : ∀ e, P (generic e)) (response : HttpResponse)
    {α : Type} (decode : Json → Option α) : (receiveJson F response decode).Errs P := by
  intro x
  cases x with
  | error e => exact h e
  | ok body =>
    show ((Prog.orElse (body.toJson F) fun error => .err (generic error)) >>= _).Errs P
    refine .bind ?_ fun document => ?_
    · cases body.toJson F with
      | error e => exact h e
      | ok document => trivial
    · split
      · trivial
      · exact h _

theorem putResult_errs (h : ∀ e, P (generic e)) (response : HttpResponse) :
    (Prog.orElse (putResult response) .err : BindingM PutResult).Errs P := by
  cases hr : putResult response with
  | ok v => trivial
  | error e =>
    obtain ⟨message,rfl⟩ := putResult_error hr
    exact h message

end Errors

theorem send_asks {P : Exchange → Prop} {q : HttpRequest}
    (h : q.headers.all (fun h => F.isHeaderValue h.2) = true → P (.send q)) : (send F q).Asks P := by
  unfold send
  split
  next hsent => exact ⟨h hsent,fun x => by cases x <;> trivial⟩
  next => trivial

theorem checkResponse_asks {P : Exchange → Prop} {F : Formats} {response : HttpResponse}
    (h : P (.receive response.body)) : (checkResponse F response).Asks P := by
  unfold checkResponse
  split
  · trivial
  · exact ⟨h,fun _ => trivial⟩

theorem putOpts_asks {P : Exchange → Prop} {F : Formats} {location : Path} (payload : List Bytes) {mode : PutMode}
    (hsend : ∀ q, putRequest location mode = .ok q → (send F { q with body := .bytes payload.flatten }).Asks P)
    (hreceive : ∀ body, P (.receive body)) : (putOpts F location payload mode).Asks P := by
  unfold putOpts
  refine Prog.Asks.bind trivial fun _ => ?_
  cases hq : putRequest location mode with
  | error e => trivial
  | ok q =>
    simp only [Prog.orElse_ok, Prog.ok_bind]
    refine (hsend q hq).bind fun response => ?_
    split
    · trivial
    · refine (checkResponse_asks (hreceive _)).bind fun response => .bind trivial fun _ => ?_
      cases putResult response <;> trivial

/-- Only a request whose headers can be sent is sent. -/
def Exchange.Sendable (F : Formats) : Exchange → Prop
  | .send q => q.headers.all (fun h => F.isHeaderValue h.2) = true
  | .receive _ => True

theorem putOpts_sendable {F : Formats} (location : Path) (payload : List Bytes) (mode : PutMode) :
    (putOpts F location payload mode).Asks (Exchange.Sendable F) :=
  putOpts_asks payload (fun _ _ => send_asks fun h => h) fun _ => trivial

end SlatedbCloudflare.BindingStore
