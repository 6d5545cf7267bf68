import SlatedbCloudflare.Platform.Effects
import SlatedbCloudflare.Container.Network

/-! # Conditional writes of the container under concurrency

Any number of clients talk to the bridge over HTTP. Requests wait in flight and
are handled in any order, responses may be lost, and R2 may fail. The client
rebuilds the verdict from a status code. The contract is compare-and-swap by the
identity of ETags; it holds exactly if the updates name one entity tag each.
-/
namespace SlatedbCloudflare.BindingStore
open Programs Messages Traversals ObjectStore R2 Http Bridge

/-- A call of a client, with the ETags that its result hands out. -/
inductive StoreCall
  | put (location : Path) (payload : List Bytes) (mode : PutMode)
  | get (location : Path) (options : GetOptions)
  | page (keyPrefix cursor delimiter : Option String)
  | complete (location : Path) (uploadId : String) (parts : List (ℕ × String))
  | other (p : BindingM Unit)

def StoreCall.prog (F : Formats) (lib : Crate) : StoreCall → BindingM (List (Option String))
  | .put location payload mode => do
    let result ← putOpts F location payload mode
    pure [result.eTag]
  | .get location options => do
    let result ← getOpts F lib location options
    pure [result.metadata.eTag]
  | .page keyPrefix cursor delimiter => do
    let page ← listPage F keyPrefix cursor delimiter
    let objects ← Prog.orElse (page.objects.mapM (ListObject.intoMeta lib)) .err
    pure (objects.map ObjectMeta.eTag)
  | .complete location uploadId parts => do
    let result ← completeParts F location uploadId parts
    pure [result.eTag]
  | .other p => do
    p
    pure []

def CarriesTag (tag : String) (found : Option Object) : Prop := ∃ old, found = some old ∧ old.httpEtag = tag

/-- R2's verdict on `If-Match: tag` sent with this location. -/
def Matched (R : Rules) (F : Formats) (location : Path) (tag : String) (found : Option Object) : Prop :=
  R.evaluate (.headers (received F [("x-slate-path",location.raw),("if-match",tag)])) found = some true

/-- An update that can reach R2 names one entity tag, or what R2 takes for no object's. -/
def StoreCall.NamesTag (R : Rules) (F : Formats) : StoreCall → Prop
  | .put location _ (.update version) => ∀ tag, version.eTag = some tag → F.isHeaderValue location.raw = true →
    F.isHeaderValue tag = true → bridgeKey F location ≠ "" →
      (∃ t : ETag, tag = t.quoted) ∨ ∀ found, ¬ Matched R F location tag found
  | _ => True

section Contract
variable (F : Formats) {ι : Type} (es : List (BridgeEvent ι)) (i : ι) (calls : ℕ)

/-- What an error of a conditional put promises. -/
def Refusal (location : Path) (mode : PutMode) : Error → Prop
  | .alreadyExists _ _ => mode = .create ∧ Untouched es i ∧
      ∃ e ∈ es, e.caller = i ∧ e.before.objects (bridgeKey F location) ≠ none
  | .precondition _ _ => ∃ version tag, mode = .update version ∧ version.eTag = some tag ∧
      Untouched es i ∧
      ∃ e ∈ es, e.caller = i ∧ ¬ CarriesTag tag (e.before.objects (bridgeKey F location))
  | .notSupported _ => calls = 0 ∧ ∀ e ∈ es, e.caller ≠ i
  | _ => True

/-- What success of a put promises. -/
def Applied (location : Path) : PutMode → Prop
  | .overwrite => True
  | .create => Stores es i (bridgeKey F location) (· = none)
  | .update version => ∃ tag, version.eTag = some tag ∧
      Stores es i (bridgeKey F location) (CarriesTag tag)

/-- Every ETag handed out is the one of an object that was in the bucket when
the call was handled. -/
def HandsOut (tags : List (Option String)) : Prop :=
  ∀ tag ∈ tags, ∃ e ∈ es, e.caller = i ∧ ∃ key object, e.after.objects key = some object ∧
    tag = some object.httpEtag

def StoreCall.Verdict (c : StoreCall) (r : Except Error (List (Option String))) : Prop :=
  (∀ tags, r = .ok tags → HandsOut es i tags) ∧
  match c with
  | .put location _ mode => (∀ tags, r = .ok tags → Applied F es i location mode) ∧
      ∀ error, r = .error error → Refusal F es i calls location mode error
  | _ => True

end Contract

section Conditions
variable {R : Rules} {F : Formats} {location : Path} {mode : PutMode} {q : HttpRequest}

theorem received_conditions (hq : putRequest location mode = .ok q) :
    (received F q.headers).conditions = received F (modeHeaders mode) := by
  obtain ⟨_,hheaders⟩ := putRequest_eq hq
  rw [hheaders]
  cases mode with
  | overwrite | create => simp [received, Headers.conditions, conditionalHeaders, modeHeaders]
  | update version =>
    cases htag : version.eTag <;>
      simp [received, Headers.conditions, conditionalHeaders, modeHeaders, htag]

theorem evaluate_put (R : Rules) (F : Formats) (hq : putRequest location mode = .ok q) :
    (mode = .overwrite ∧ ∀ found, R.evaluate (.headers (received F q.headers)) found = some true) ∨
      (mode = .create ∧
        ∀ found, R.evaluate (.headers (received F q.headers)) found = some found.isNone) ∨
      ∃ version tag, mode = .update version ∧ version.eTag = some tag ∧
        ∀ found, Matched R F location tag found ↔
          R.evaluate (.headers (received F q.headers)) found = some true := by
  have hconditions := received_conditions (F := F) hq
  cases mode with
  | overwrite => exact .inl ⟨rfl,fun _ => R.evaluate_noHeader _ _ hconditions⟩
  | create =>
    have hstar : F.arrives "*" = "*" := arrives_printable F (by decide)
    have hsent : received F (modeHeaders .create) = [("if-none-match","*")] := by
      simp [received, modeHeaders, hstar]
    rw [hsent] at hconditions
    exact .inr (.inl ⟨rfl,fun _ => R.evaluate_ifNoneMatch _ _ hconditions⟩)
  | update version =>
    cases htag : version.eTag with
    | none =>
      simp only [putRequest, htag] at hq
      cases hq
    | some tag =>
      obtain ⟨_,hheaders⟩ := putRequest_eq hq
      refine .inr (.inr ⟨version,tag,rfl,htag,fun found => ?_⟩)
      simp [Matched, hheaders, modeHeaders, htag]

theorem tag_conditions {tag : String} (htag : F.arrives tag = tag) :
    (received F [("x-slate-path",location.raw),("if-match",tag)]).conditions = [("if-match",tag)] := by
  simp [received, Headers.conditions, conditionalHeaders, htag]

theorem carriesTag_quoted {tag : ETag} {found : Option Object} :
    CarriesTag tag.quoted found ↔ ∃ old, found = some old ∧ old.etag = tag := by
  simp [CarriesTag, Object.httpEtag, Rules.quoted_inj]

/-- An entity tag matches the object that carries it, and no other. -/
theorem matched_quoted (R : Rules) (F : Formats) (location : Path) (tag : ETag) (found : Option Object) :
    Matched R F location tag.quoted found ↔ CarriesTag tag.quoted found := by
  rw [Matched, R.evaluate_ifMatch _ tag _ (tag_conditions (arrives_quoted F tag)), carriesTag_quoted]
  simp [Option.any_eq_true]

theorem matched_any (R : Rules) (F : Formats) (location : Path) (found : Option Object) :
    Matched R F location "*" found ↔ found ≠ none := by
  rw [Matched, R.evaluate_ifMatchAny _ _ (tag_conditions (arrives_printable F (by decide)))]
  simp [Option.isSome_iff_ne_none]

theorem carries_of_matched {payload : List Bytes} {version : UpdateVersion} {tag : String} {found : Option Object}
    (hnames : (StoreCall.put location payload (.update version)).NamesTag R F)
    (hq : putRequest location (.update version) = .ok q)
    (hsent : q.headers.all (fun h => F.isHeaderValue h.2) = true) (htag : version.eTag = some tag)
    (hkey : bridgeKey F location ≠ "") (h : Matched R F location tag found) : CarriesTag tag found := by
  obtain ⟨_,hheaders⟩ := putRequest_eq hq
  simp only [hheaders, modeHeaders, htag, Option.map_some, Option.toList_some, List.all_cons, List.all_nil,
    Bool.and_true, Bool.and_eq_true] at hsent
  rcases hnames tag htag hsent.1 hsent.2 hkey with ⟨t,rfl⟩ | hnever
  · exact (matched_quoted R F location t found).mp h
  · exact absurd h (hnever found)

theorem matched_of_carries {tag : String} {found : Option Object} (h : CarriesTag tag found) :
    Matched R F location tag found := by
  obtain ⟨old,hold,rfl⟩ := h
  exact (matched_quoted R F location old.etag found).mpr ⟨old,hold,rfl⟩

end Conditions

section Verdicts
variable {R : Rules} {F : Formats} {ι : Type} {es : List (BridgeEvent ι)} {i : ι}
  {tr : List ((q : Exchange) × Answer q)}

theorem no_event (hh : History (network (Serve R) F) es i []) : ∀ e ∈ es, e.caller ≠ i := by
  intro e he hi
  obtain ⟨x,hx,_⟩ := hh.events e he hi
  simp at hx

variable {location : Path} {mode : PutMode} {q : HttpRequest} {bytes : Bytes}
  {response : HttpResponse}

theorem applied_of_history {payload : List Bytes} (hnames : (StoreCall.put location payload mode).NamesTag R F)
    (hq : putRequest location mode = .ok q) (hsent : q.headers.all (fun h => F.isHeaderValue h.2) = true)
    (hh : History (network (Serve R) F) es i
      [⟨.send { q with body := .bytes bytes },.ok response⟩])
    (hs : isSuccess response.status = true) : Applied F es i location mode := by
  obtain ⟨e,he,hi,ha,hother⟩ := hh.last [] rfl (by simp) (by rintro ⟨_,h⟩; cases h)
  have hserve := hh.serves e he
  obtain ⟨caller,index,req,reply,before,after⟩ := e
  cases ha
  have hnamed : bridgeKey F location ≠ "" := by
    intro hk
    rw [(handles_put_pathless hq hk hserve).1] at hs
    cases hs
  rcases handles_put hq hserve with ⟨hk,_⟩ | ⟨x,hput,rfl⟩
  · exact absurd hk hnamed
  · rcases x with error | _ | object
    · cases hs
    · cases hs
    · rcases hput.does with ⟨_,h,_⟩ | ⟨heval,stored,hkey,_,_,hafter⟩
      · cases h
      · have hstores : Stores es i (bridgeKey F location)
            (fun found => R.evaluate (.headers (received F q.headers)) found = some true) :=
          ⟨_,he,hi,heval,⟨stored,hkey,hafter⟩,hother⟩
        rcases evaluate_put R F hq with ⟨rfl,_⟩ | ⟨rfl,hnone⟩ | ⟨version,tag,rfl,htag,hmatch⟩
        · trivial
        · show Stores es i (bridgeKey F location) (· = none)
          refine hstores.imp fun found hfound => ?_
          rw [hnone] at hfound
          simpa using hfound
        · refine ⟨tag,htag,hstores.imp fun found hfound => ?_⟩
          exact carries_of_matched hnames hq hsent htag hnamed ((hmatch found).mpr hfound)

theorem refusal_of_history {calls : ℕ} (hq : putRequest location mode = .ok q)
    (hh : History (network (Serve R) F) es i
      [⟨.send { q with body := .bytes bytes },.ok response⟩])
    (hs : response.status = 412) :
    Refusal F es i calls location mode (failedPutPrecondition location mode) := by
  have hput : ∀ s t, Handles (Serve R) F s (.send { q with body := .bytes bytes }) (.ok response) t →
      R.evaluate (.headers (received F q.headers)) (s.objects (bridgeKey F location)) = some false ∧
        t = s := by
    intro s t h
    rcases handles_put hq h with ⟨_,h500,_⟩ | ⟨x,hput,rfl⟩
    · rw [h500] at hs
      cases hs
    · rcases x with error | _ | object
      · cases hs
      · rcases hput.does with ⟨heval,_,ht⟩ | ⟨_,_,_,_,h,_⟩
        · exact ⟨heval,ht⟩
        · cases h
      · cases hs
  have huntouched : Untouched es i := by
    apply hh.untouched
    intro x hx
    rw [List.mem_singleton] at hx
    subst hx
    refine .inr ⟨?_,fun s t h => (hput s t h).2⟩
    rintro ⟨_,h⟩
    cases h
  obtain ⟨e,he,hi,_,ha⟩ := event_of_answer hh
  have heval : R.evaluate (.headers (received F q.headers)) (e.before.objects (bridgeKey F location)) =
      some false := by
    have hserve := hh.serves e he
    obtain ⟨caller,index,req,reply,before,after⟩ := e
    cases ha
    exact (hput _ _ hserve).1
  rcases evaluate_put R F hq with ⟨rfl,hall⟩ | ⟨rfl,hnone⟩ | ⟨version,tag,rfl,htag,hmatch⟩
  · rw [hall] at heval
    cases heval
  · refine ⟨rfl,huntouched,e,he,hi,fun h => ?_⟩
    rw [hnone, h] at heval
    cases heval
  · refine ⟨version,tag,rfl,htag,huntouched,e,he,hi,fun hcarries => ?_⟩
    have hmatched := (hmatch _).mp (matched_of_carries hcarries)
    rw [heval] at hmatched
    cases hmatched

/-- The verdict on a put, from its exchanges and the events of the run. -/
theorem put_verdict {payload : List Bytes} {os : List (Counter × ℕ)} {r : Except Error PutResult}
    (hnames : (StoreCall.put location payload mode).NamesTag R F)
    (hh : History (network (Serve R) F) es i tr) (h : Returns (putOpts F location payload mode) tr os r) :
    (∀ result, r = .ok result → Applied F es i location mode) ∧
      ∀ error, r = .error error → Refusal F es i tr.length location mode error := by
  have hsent := h.asks (putOpts_sendable location payload mode)
  cases putOpts_returns h with
  | unsupported hq =>
    refine ⟨fun _ h => (by cases h),fun error h => ?_⟩
    cases h
    cases mode with
    | overwrite | create => cases hq
    | update version =>
      cases htag : version.eTag with
      | some tag =>
        simp only [putRequest, htag] at hq
        cases hq
      | none =>
        simp only [putRequest, htag] at hq
        cases hq
        exact ⟨rfl,no_event hh⟩
  | unsent e | failed _ e =>
    refine ⟨fun _ h => (by cases h),fun error h => ?_⟩
    cases h
    trivial
  | refused hq hs =>
    refine ⟨fun _ h => (by cases h),fun error h => ?_⟩
    cases h
    exact refusal_of_history hq hh hs
  | stored hq hs hr =>
    have hsendable := hsent _ (List.mem_singleton_self _)
    exact ⟨fun _ _ => applied_of_history hnames hq hsendable hh hs,fun _ h => (by cases h)⟩

end Verdicts

section Calls
variable {R : Rules} {F : Formats} {lib : Crate} {ι : Type} {es : List (BridgeEvent ι)} {i : ι}
  {tr : List ((q : Exchange) × Answer q)} {os : List (Counter × ℕ)}

theorem handsOut_of_answer {q : HttpRequest} {response : HttpResponse} {v : Option String}
    {rest : List ((q : Exchange) × Answer q)}
    (hh : History (network (Serve R) F) es i (⟨.send q,.ok response⟩ :: rest))
    (hd : ∀ s t, Handles (Serve R) F s (.send q) (.ok response) t → Describes t response)
    (hv : headerValue response "etag" = .ok v) : HandsOut es i [v] := by
  obtain ⟨e,he,hi,_,ha⟩ := event_of_answer hh
  have hserve := hh.serves e he
  intro tag htag
  rw [List.mem_singleton] at htag
  subst htag
  refine ⟨e,he,hi,?_⟩
  obtain ⟨caller,index,req,reply,before,after⟩ := e
  cases ha
  obtain ⟨key,object,hkey,hheader⟩ := hd _ _ hserve
  exact ⟨key,object,hkey,headerValue_some hv hheader⟩

theorem handsOut_page {keyPrefix cursor delimiter : Option String} {page : ListPage}
    {objects : List ObjectMeta} (hh : History (network (Serve R) F) es i tr)
    (h : Returns (listPage F keyPrefix cursor delimiter) tr os (.ok page))
    (hm : page.objects.mapM (ListObject.intoMeta lib) = .ok objects) :
    HandsOut es i (objects.map ObjectMeta.eTag) := by
  obtain ⟨response,body,document,rfl,hs,hj,hpage⟩ := listPage_returns h
  obtain ⟨e,he,hi,_,ha⟩ := event_of_answer hh
  have hserve := hh.serves e he
  obtain ⟨d,hd,_,_,hda⟩ := hh.answers 1 _ rfl (by rintro ⟨_,h⟩; cases h)
  have hreceive := hh.serves d hd
  obtain ⟨caller,index,req,reply,before,after⟩ := e
  obtain ⟨_,_,_,_,before',after'⟩ := d
  cases ha
  cases hda
  obtain ⟨v,hbody,hobjects⟩ := handles_list hserve hs
  have hjson : document = listedPage F v := by
    cases hreceive with
    | received =>
      rw [hbody] at hj
      exact (Except.ok.inj hj).symm
  subst hjson
  intro tag htag
  obtain ⟨m,hm',rfl⟩ := List.mem_map.mp htag
  obtain ⟨o,ho,hmeta⟩ := forall₂_mem (mapM_except.mp hm) m hm'
  obtain ⟨object,hobject,hetag⟩ := listPage_etags hpage o ho
  refine ⟨_,he,hi,object.key,object,hobjects object hobject,?_⟩
  obtain ⟨location,_,hm⟩ := bind_ok.mp hmeta
  cases hm
  rw [hetag]

/-- Every call that names one entity tag where it updates gets its verdict. -/
theorem StoreCall.verdict {c : StoreCall} {r : Except Error (List (Option String))}
    (hnames : c.NamesTag R F) (hh : History (network (Serve R) F) es i tr)
    (h : Returns (c.prog F lib) tr os r) : c.Verdict F es i tr.length r := by
  cases c with
  | other p =>
    refine ⟨fun tags hr => ?_,trivial⟩
    subst hr
    obtain ⟨_,_,_,_,_,_,_,_,h⟩ := h.of_bind_ok
    obtain ⟨_,_,hr⟩ := h.of_ok
    cases hr
    simp [HandsOut]
  | get location options =>
    refine ⟨fun tags hr => ?_,trivial⟩
    subst hr
    obtain ⟨result,tr₁,tr₂,os₁,os₂,rfl,_,hget,hend⟩ := h.of_bind_ok
    obtain ⟨rfl,_,hr⟩ := hend.of_ok
    cases hr
    obtain ⟨headers,response,hheaders,rfl,hs,hmetadata⟩ := getOpts_returns hget
    exact handsOut_of_answer hh (fun s t h => describes_read (readHeaders_names hheaders) h hs)
      (objectMeta_eTag hmetadata)
  | complete location uploadId parts =>
    refine ⟨fun tags hr => ?_,trivial⟩
    subst hr
    obtain ⟨result,tr₁,tr₂,os₁,os₂,rfl,_,hcomplete,hend⟩ := h.of_bind_ok
    obtain ⟨rfl,_,hr⟩ := hend.of_ok
    cases hr
    obtain ⟨response,rfl,hs,hresult⟩ := completeParts_returns hcomplete
    exact handsOut_of_answer hh (fun s t h => describes_complete h hs) (putResult_eTag hresult)
  | page keyPrefix cursor delimiter =>
    refine ⟨fun tags hr => ?_,trivial⟩
    subst hr
    obtain ⟨page,tr₁,tr₂,os₁,os₂,rfl,_,hpage,hend⟩ := h.of_bind_ok
    obtain ⟨objects,hobjects,h₁⟩ := hend.of_orElse
    obtain ⟨rfl,_,hr⟩ := h₁.of_ok
    cases hr
    rw [List.append_nil] at hh
    exact handsOut_page hh hpage hobjects
  | put location payload mode =>
    rcases h.of_bind with ⟨e,rfl,hput⟩ | ⟨result,tr₁,tr₂,os₁,os₂,rfl,_,hput,hend⟩
    · have hverdict := put_verdict hnames hh hput
      refine ⟨fun _ hr => (by cases hr),fun _ hr => (by cases hr),fun error hr => ?_⟩
      cases hr
      exact hverdict.2 e rfl
    · obtain ⟨rfl,_,rfl⟩ := hend.of_ok
      rw [List.append_nil] at hh ⊢
      have houtcome := putOpts_returns hput
      refine ⟨fun tags hr => ?_,fun _ _ => (put_verdict hnames hh hput).1 _ rfl,fun _ hr => (by cases hr)⟩
      cases hr
      cases houtcome with
      | stored hq hs hresult =>
        exact handsOut_of_answer hh (fun s t h => describes_put hq h hs) (putResult_eTag hresult)

end Calls

section Bridge
variable {ι : Type} [DecidableEq ι] (R : Rules) (F : Formats) (lib : Crate) (w : ι → StoreCall)

/-- The verdicts hold for all initial buckets, with any set of messages in flight
and any order of handling, and with R2 failing at will. -/
def CompareAndSwap : Prop :=
  ∀ (s : State) (es : List (BridgeEvent ι))
    (t : System ι State Exchange Answer (Counter × ℕ) Error (List (Option String))),
    Run (network (Serve R) F) (start s (fun i => (w i).prog F lib)) es t →
      ∀ i r, (t.client i).prog = .ofResult r → (w i).Verdict F es i (t.client i).calls r

def AppliesUpdate (key : String) (content : Bytes) (tag : String) (object : Object) (e : BridgeEvent ι) : Prop :=
  CarriesTag tag (e.before.objects key) ∧ object.key = key ∧ object.content = content ∧
    e.after = e.before.store object

def RefusesUpdate (key : String) (tag : String) (e : BridgeEvent ι) : Prop :=
  ¬ CarriesTag tag (e.before.objects key) ∧ e.after = e.before

/-- An update that was handled without an R2 failure was applied exactly if the key
held the object with its ETag. -/
def UpdateHandled (key : String) (content : Bytes) (tag : String) (e : BridgeEvent ι) : Prop :=
  ∀ q response, e.answer = ⟨.send q,.ok response⟩ →
    (∃ object, AppliesUpdate key content tag object e ∧ response.status = 200) ∨
      RefusesUpdate key tag e ∧ response.status = 412

/-- What the client of an update learns when no message is lost: the ETag of the new
object if its version can be read, or that the precondition failed. -/
def UpdateAnswered (location : Path) (content : Bytes) (tag : String) (e : BridgeEvent ι)
    (r : Except Error (List (Option String))) : Prop :=
  (∃ object, AppliesUpdate (bridgeKey F location) content tag object e ∧
    (isHeaderText (F.arrives object.version) = true → r = .ok [some object.httpEtag])) ∨
  RefusesUpdate (bridgeKey F location) tag e ∧
    r = .error (.precondition location.raw "R2 update precondition failed")

def lossless (S : State → (r : R2.Request) → R2.Reply r → State → Prop) (F : Formats) :
    Service State Exchange Answer where
  serve := Handles S F
  lost _ _ := False

/-- Every ETag in the form in which it is handed out is accepted by an update: handled,
the update is applied or refused by the ETag, and where no message is lost it is handled
and its client learns the outcome. -/
def AcceptsBack : Prop :=
  ∀ i location payload version (tag : ETag), w i = .put location payload (.update version) →
    version.eTag = some tag.quoted → F.isHeaderValue location.raw = true → bridgeKey F location ≠ "" →
    ∀ (s : State) (es : List (BridgeEvent ι))
      (t : System ι State Exchange Answer (Counter × ℕ) Error (List (Option String))),
      (Run (network (Reliable R) F) (start s (fun i => (w i).prog F lib)) es t →
        ∀ e ∈ es, e.caller = i → UpdateHandled (bridgeKey F location) payload.flatten tag.quoted e) ∧
      (Run (lossless (Reliable R) F) (start s (fun i => (w i).prog F lib)) es t →
        ∀ r, (t.client i).prog = .ofResult r →
          ∃ e ∈ es, e.caller = i ∧ UpdateAnswered F location payload.flatten tag.quoted e r)

end Bridge

section Accepted
variable {R : Rules} {F : Formats} {lib : Crate} {ι : Type} {location : Path} {payload : List Bytes}

theorem put_exchanges {mode : PutMode} {q : HttpRequest} (hq : putRequest location mode = .ok q) :
    ((StoreCall.put location payload mode).prog F lib).Asks (fun x =>
      x = .send { q with body := .bytes payload.flatten } ∨ ∃ body, x = .receive body) := by
  refine .bind (putOpts_asks payload (fun q' hq' => ?_) fun body => .inr ⟨body,rfl⟩) fun _ => trivial
  rw [hq] at hq'
  cases hq'
  exact send_asks fun _ => .inl rfl

variable {version : UpdateVersion} {tag : ETag} {q : HttpRequest}

theorem update_handled (hq : putRequest location (.update version) = .ok q)
    (htag : version.eTag = some tag.quoted) (hkey : bridgeKey F location ≠ "") {caller : ι} {index : ℕ}
    {s t : State} {response : HttpResponse}
    (h : Handles (Reliable R) F s (.send { q with body := .bytes payload.flatten }) (.ok response) t) :
    (∃ object, AppliesUpdate (bridgeKey F location) payload.flatten tag.quoted object
        (⟨caller,index,.send { q with body := .bytes payload.flatten },.ok response,s,t⟩ : BridgeEvent ι) ∧
      response = (objectResponse F object).deliver F) ∨
    RefusesUpdate (bridgeKey F location) tag.quoted
        (⟨caller,index,.send { q with body := .bytes payload.flatten },.ok response,s,t⟩ : BridgeEvent ι) ∧
      response.status = 412 := by
  have hmatch : R.evaluate (.headers (received F q.headers)) (s.objects (bridgeKey F location)) = some true ↔
      CarriesTag tag.quoted (s.objects (bridgeKey F location)) := by
    rcases evaluate_put R F hq with ⟨h,_⟩ | ⟨h,_⟩ | ⟨version',tag',h,htag',hmatch⟩
    · cases h
    · cases h
    · cases h
      cases htag.symm.trans htag'
      rw [← hmatch, matched_quoted]
  rcases handles_put hq h with ⟨hk,_⟩ | ⟨x,⟨v,rfl,hput⟩,rfl⟩
  · exact absurd hk hkey
  · rcases hput with ⟨heval,rfl,rfl⟩ | ⟨heval,object,hobject,hcontent,rfl,rfl⟩
    · refine .inr ⟨⟨fun hcarries => ?_,rfl⟩,rfl⟩
      rw [hmatch.mpr hcarries] at heval
      cases heval
    · exact .inl ⟨object,⟨hmatch.mp heval,hobject,hcontent,rfl⟩,rfl⟩

theorem putResult_object {object : Object} (h : isHeaderText (F.arrives object.version) = true) :
    putResult ((objectResponse F object).deliver F) =
      .ok ⟨some object.httpEtag,some (F.arrives object.version)⟩ := by
  have htag : headerValue ((objectResponse F object).deliver F) "etag" = .ok (some object.httpEtag) := by
    have hheader : ((objectResponse F object).deliver F).header "etag" = some object.httpEtag := by
      simp [HttpResponse.header, HttpResponse.deliver, received, objectResponse, emptyResponse,
        objectHeaders, Object.httpEtag, arrives_quoted]
    rw [headerValue, hheader]
    exact if_pos (isHeaderText_printable (isPrintable_quoted object.etag))
  have hversion : headerValue ((objectResponse F object).deliver F) "x-slate-version" =
      .ok (some (F.arrives object.version)) := by
    have hheader : ((objectResponse F object).deliver F).header "x-slate-version" =
        some (F.arrives object.version) := by
      simp [HttpResponse.header, HttpResponse.deliver, received, objectResponse, emptyResponse,
        objectHeaders, List.lookup_cons]
    rw [headerValue, hheader]
    exact if_pos h
  rw [putResult, htag]
  simp only [bind, Except.bind, hversion]
  rfl

theorem update_request (location : Path) {version : UpdateVersion} {tag : String} (htag : version.eTag = some tag) :
    ∃ q, putRequest location (.update version) = .ok q ∧
      q.headers = [("x-slate-path",location.raw),("if-match",tag)] := by
  simp only [putRequest, htag]
  exact ⟨_,rfl,rfl⟩

theorem update_answered [DecidableEq ι] {es : List (BridgeEvent ι)} {i : ι}
    {tr : List ((q : Exchange) × Answer q)} {os : List (Counter × ℕ)} {r : Except Error (List (Option String))}
    (hq : putRequest location (.update version) = .ok q) (htag : version.eTag = some tag.quoted)
    (hsent : q.headers.all (fun h => F.isHeaderValue h.2) = true) (hkey : bridgeKey F location ≠ "")
    (hh : History (lossless (Reliable R) F) es i tr)
    (h : Returns ((StoreCall.put location payload (.update version)).prog F lib) tr os r) :
    ∃ e ∈ es, e.caller = i ∧ UpdateAnswered F location payload.flatten tag.quoted e r := by
  have hanswer : ∀ {x : Answer (.send { q with body := .bytes payload.flatten })} {tr'},
      tr = ⟨.send { q with body := .bytes payload.flatten },x⟩ :: tr' →
        ∃ response, x = .ok response ∧ ∃ e ∈ es, e.caller = i ∧
          ((∃ object, AppliesUpdate (bridgeKey F location) payload.flatten tag.quoted object e ∧
            response = (objectResponse F object).deliver F) ∨
          RefusesUpdate (bridgeKey F location) tag.quoted e ∧ response.status = 412) := by
    rintro x tr' rfl
    obtain ⟨e,he,hi,_,ha⟩ := hh.answers 0 _ rfl (fun h => h)
    have hserve := hh.serves e he
    obtain ⟨caller,index,req,reply,before,after⟩ := e
    cases ha
    cases hserve with
    | handled hexec =>
      exact ⟨_,rfl,_,he,hi,update_handled hq htag hkey (.handled hexec)⟩
  rcases h.of_bind with ⟨error,rfl,hput⟩ | ⟨result,tr₁,tr₂,os₁,os₂,rfl,_,hput,hend⟩
  · obtain ⟨x,tr',htr,hresult⟩ := putOpts_answered hq hsent hput
    obtain ⟨response,rfl,e,he,hi,hcase⟩ := hanswer htr
    obtain ⟨hrefused,hok⟩ := hresult response rfl
    refine ⟨e,he,hi,?_⟩
    rcases hcase with ⟨object,happlies,rfl⟩ | ⟨hrefuses,hs⟩
    · refine .inl ⟨object,happlies,fun hversion => ?_⟩
      cases hok rfl _ (putResult_object hversion)
    · cases hrefused hs
      exact .inr ⟨hrefuses,rfl⟩
  · obtain ⟨rfl,_,rfl⟩ := hend.of_ok
    obtain ⟨x,tr',htr,hresult⟩ := putOpts_answered hq hsent hput
    obtain ⟨response,rfl,e,he,hi,hcase⟩ := hanswer (by rw [List.append_nil, htr])
    obtain ⟨hrefused,hok⟩ := hresult response rfl
    refine ⟨e,he,hi,?_⟩
    rcases hcase with ⟨object,happlies,rfl⟩ | ⟨hrefuses,hs⟩
    · refine .inl ⟨object,happlies,fun hversion => ?_⟩
      cases hok rfl _ (putResult_object hversion)
      rfl
    · cases hrefused hs

/-- The ETags handed out are accepted back by every update. -/
theorem acceptsBack [DecidableEq ι] (R : Rules) (F : Formats) (lib : Crate) (w : ι → StoreCall) :
    AcceptsBack R F lib w := by
  intro i location payload version tag hw htag hlocation hkey s es t
  obtain ⟨q,hq,hheaders⟩ := update_request location htag
  have hsent : q.headers.all (fun h => F.isHeaderValue h.2) = true := by
    have hquoted : F.isHeaderValue tag.quoted = true :=
      F.isHeaderValue_text _ (isHeaderText_printable (isPrintable_quoted tag))
    simp [hheaders, hlocation, hquoted]
  constructor
  · intro hrun e he hi q' response ha
    have hasked := hrun.asked (i := i) (by rw [hw]; exact put_exchanges hq) e he hi
    have hserve := hrun.serves e he
    obtain ⟨caller,index,req,reply,before,after⟩ := e
    cases ha
    rcases hasked with hreq | ⟨body,hreq⟩
    · cases hreq
      rcases update_handled hq htag hkey hserve with ⟨object,happlies,rfl⟩ | hrefuses
      · exact .inl ⟨object,happlies,rfl⟩
      · exact .inr hrefuses
    · cases hreq
  · intro hrun r hr
    obtain ⟨tr,os,hret,hh,_⟩ := hrun.history hr
    rw [hw] at hret
    exact update_answered hq htag hsent hkey hh hret

theorem put_sends {α : Type} (payload : List Bytes) {mode : PutMode}
    (hq : putRequest location mode = .ok q) (hsent : q.headers.all (fun h => F.isHeaderValue h.2) = true)
    (k : PutResult → BindingM α) : ∃ rest, (putOpts F location payload mode >>= k) =
      .emit (.puts,1) (.call (.send { q with body := .bytes payload.flatten }) rest) ∧
        (∀ object : Object, isHeaderText (F.arrives object.version) = true →
          rest (.ok ((objectResponse F object).deliver F)) = .emit (.writtenBytes,payload.flatten.length)
            (k ⟨some object.httpEtag,some (F.arrives object.version)⟩)) ∧
        ∀ response : HttpResponse, response.status = 412 →
          rest (.ok response) = .emit (.errors,1) (.err (failedPutPrecondition location mode)) := by
  rw [putOpts_sends payload hq hsent]
  refine ⟨_,rfl,fun object hversion => ?_,fun response hs => ?_⟩
  · show Prog.emit _ ((Prog.orElse (putResult ((objectResponse F object).deliver F)) .err : BindingM PutResult) >>= k) = _
    rw [putResult_object hversion]
    rfl
  · simp only [Prog.orElse_ok, Prog.ok_bind, if_pos hs]
    rfl

theorem update_alone (lib : Crate) {location : Path} (payload : List Bytes) {version : UpdateVersion}
    {tag : String} (htag : version.eTag = some tag) (hlocation : F.isHeaderValue location.raw = true)
    (hvalue : F.isHeaderValue tag = true) (hkey : bridgeKey F location ≠ "") {s : State}
    (hmatch : Matched R F location tag (s.objects (bridgeKey F location))) (i : ι) :
    ∃ es t m tags, Alone (network (Serve R) F) i s 0
        ((StoreCall.put location payload (.update version)).prog F lib) es t m (.ok tags) ∧
      ∀ e ∈ es, e.before = s := by
  obtain ⟨q,hq,hheaders⟩ := update_request location htag
  have hsent : q.headers.all (fun h => F.isHeaderValue h.2) = true := by
    simp [hheaders, hlocation, hvalue]
  let stored : Object := ⟨bridgeKey F location,"",⟨"",rfl⟩,0,payload.flatten⟩
  have hversion : isHeaderText (F.arrives stored.version) = true := by
    show isHeaderText (F.arrives "") = true
    rw [arrives_printable F (by decide)]
    rfl
  have hput : Serve R s (.put (bridgeKey F location) payload.flatten (.headers (received F q.headers)))
      (.ok (some stored)) (s.store stored) := by
    refine .served (.inr ⟨?_,stored,rfl,rfl,rfl,rfl⟩)
    rw [hheaders]
    exact hmatch
  have halone : Alone (network (Serve R) F) i s 0
      ((StoreCall.put location payload (.update version)).prog F lib)
      [⟨i,0,.send { q with body := .bytes payload.flatten },.ok ((objectResponse F stored).deliver F),s,
        s.store stored⟩] (s.store stored) 1 (.ok [some stored.httpEtag]) := by
    obtain ⟨rest,hprog,hstored,_⟩ := put_sends payload hq hsent (fun result => pure [result.eTag])
    rw [StoreCall.prog, hprog]
    refine .emit (.call (put_handles hq hkey hput) ?_)
    rw [hstored stored hversion]
    exact .emit (.refl _ _ _)
  exact ⟨_,_,_,_,halone,by simp⟩

end Accepted

theorem verdict_of_update_alone {ι : Type} [DecidableEq ι] {R : Rules} {F : Formats} {lib : Crate}
    {w : ι → StoreCall} (h : CompareAndSwap R F lib w) {i : ι} {location : Path} {payload : List Bytes}
    {version : UpdateVersion} {tag : String} (hw : w i = .put location payload (.update version))
    (htag : version.eTag = some tag) (hlocation : F.isHeaderValue location.raw = true)
    (hvalue : F.isHeaderValue tag = true) (hkey : bridgeKey F location ≠ "") {found : Option Object}
    (hmatch : Matched R F location tag found) : CarriesTag tag found := by
  obtain ⟨es,t,m,tags,halone,hbefore⟩ := update_alone lib payload htag hlocation hvalue hkey
    (s := ⟨fun _ => found,fun _ => none⟩) hmatch i
  rw [← hw] at halone
  obtain ⟨T,hrun,_,hT,_⟩ := halone.run (start _ (fun j => (w j).prog F lib)) rfl rfl
  have hverdict := h _ es T hrun i (.ok tags) (by rw [hT]; rfl)
  rw [hw] at hverdict
  obtain ⟨tag',htag',e,he,_,hfound,_⟩ := hverdict.2.1 tags rfl
  cases htag.symm.trans htag'
  rw [hbefore e he] at hfound
  exact hfound

/-- Conditional writes through the bridge are compare-and-swap end to end exactly for
clients whose updates name one entity tag each, the form of every ETag handed out. The
wildcard is none: R2 takes it for whatever object is there. -/
theorem bridge_compareAndSwap_iff {ι : Type} [DecidableEq ι] (R : Rules) (F : Formats) (lib : Crate)
    (w : ι → StoreCall) :
    (CompareAndSwap R F lib w ∧ AcceptsBack R F lib w ↔ ∀ i, (w i).NamesTag R F) ∧
    (∀ location (tag : ETag) found, Matched R F location tag.quoted found ↔ CarriesTag tag.quoted found) ∧
    ∀ location found, Matched R F location "*" found ↔ found ≠ none := by
  refine ⟨⟨?_,?_⟩,matched_quoted R F,matched_any R F⟩
  · rintro ⟨h,_⟩ i
    cases hw : w i with
    | get | page | complete | other => trivial
    | put location payload mode =>
      cases mode with
      | overwrite | create => trivial
      | update version =>
        intro tag htag hlocation hvalue hkey
        by_cases hmatch : ∃ found, Matched R F location tag found
        · obtain ⟨found,hmatch⟩ := hmatch
          obtain ⟨old,_,rfl⟩ := verdict_of_update_alone h hw htag hlocation hvalue hkey hmatch
          exact .inl ⟨old.etag,rfl⟩
        · exact .inr fun found hfound => hmatch ⟨found,hfound⟩
  · intro hnames
    refine ⟨?_,acceptsBack R F lib w⟩
    intro s es t hrun i r hr
    obtain ⟨tr,os,hret,hh,hcalls⟩ := hrun.history hr
    rw [hcalls]
    exact StoreCall.verdict (hnames i) hh hret

/-- One client updates the key `manifest/0` and gives the wildcard for the ETag. -/
theorem wildcard_overwrites : ¬ CompareAndSwap Rules.standard .plain Crate.standard
    (fun _ : Unit => .put ⟨"manifest/0",by decide⟩ [[1]] (.update ⟨some "*",none⟩)) := by
  intro h
  let held : Object := ⟨"manifest/0","1",⟨"abc",by decide⟩,0,[0]⟩
  have hkey : bridgeKey .plain ⟨"manifest/0",by decide⟩ ≠ "" := by
    rw [bridgeKey, arrives_printable .plain (by decide)]
    decide
  have hmatch : Matched Rules.standard .plain ⟨"manifest/0",by decide⟩ "*" (some held) :=
    (matched_any _ _ _ _).mpr (by simp)
  obtain ⟨old,hold,htag⟩ := verdict_of_update_alone h (i := ()) rfl rfl (by decide) (by decide) hkey hmatch
  cases hold
  exact absurd htag (by decide)

end SlatedbCloudflare.BindingStore
