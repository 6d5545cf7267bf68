import SlatedbCloudflare.Platform.Reads
import SlatedbCloudflare.Container.Reads
import SlatedbCloudflare.Container.Listing

/-! # Conditional reads of the container

R2 judges the conditions of a `GET`, the bridge names the verdict by the headers it
saw, and the client checks the conditions again on what it got. A `HEAD` is judged
by the client alone.
-/
namespace SlatedbCloudflare.BindingStore
open Programs ObjectStore R2 Http Bridge

inductive Verdict
  | success
  | notFound
  | precondition
  | notModified
  deriving DecidableEq

def verdict {α : Type} : Except Error α → Option Verdict
  | .ok _ => some .success
  | .error (.notFound _ _) => some .notFound
  | .error (.precondition _ _) => some .precondition
  | .error (.notModified _ _) => some .notModified
  | .error _ => none

def bridging (F : Formats) (bucket : (r : R2.Request) → R2.Reply r) : (q : Exchange) → Answer q
  | .send r => ((handleR2 F (r.deliver F)).eval bucket).map (HttpResponse.deliver F)
  | .receive body => .ok body

def judged (lib : Crate) (location : Path) (options : GetOptions) : Option Object → Option Verdict
  | none => some .notFound
  | some o => verdict (lib.checkPreconditions options (bridgedMeta location o))

/-- A read of either kind gives the verdict of the check. -/
def JudgesAs (R : Rules) (F : Formats) (lib : Crate) (location : Path) (found : Option Object)
    (options : GetOptions) : Prop :=
  ∀ head, verdict ((getOpts F lib location { options with head := head }).eval
    (bridging F (holding R found))) = judged lib location options found

/-- What the crate's check looks at, and what it decides. -/
structure Judges (lib : Crate) : Prop where
  head : ∀ options head m,
    lib.checkPreconditions { options with head := head } m = lib.checkPreconditions options m
  refuses : ∀ options m e, lib.checkPreconditions options m = .error e →
    (∃ path source, e = .precondition path source) ∨
      (∃ path source, e = .notModified path source) ∧
        ((options.ifNoneMatch).isSome || (options.ifModifiedSince).isSome) = true

/-- Dates are written in header text. `to_rfc2822` panics for a year that does not have
four digits. -/
structure WritesDates (F : Formats) : Prop where
  uploaded : ∀ ms, isHeaderText (F.toISOString ms) = true ∧ trimBlanks (F.toISOString ms) = F.toISOString ms
  condition : ∀ date, HasFourDigitYear date → ∃ text, F.toRfc2822 date = some text ∧ isHeaderText text = true
  panics : ∀ date, ¬ HasFourDigitYear date → F.toRfc2822 date = none

/-- An object whose description fits into headers. -/
structure Described (o : Object) : Prop where
  size : o.size < 2 ^ 64
  version : isHeaderText o.version = true ∧ trimBlanks o.version = o.version

section Metadata
variable {F : Formats} {location : Path} {o : Object}

theorem objectMeta_described (hF : WritesDates F) (ho : Described o) (status : ℕ) (body : Body) :
    objectMeta F location (HttpResponse.deliver F ⟨status,objectHeaders F o,body⟩) =
      .ok (bridgedMeta location o) := by
  obtain ⟨htext,htrim⟩ := hF.uploaded o.uploaded
  obtain ⟨hversion,hversion'⟩ := ho.version
  have hheader : ∀ name, (HttpResponse.deliver F ⟨status,objectHeaders F o,body⟩).header name =
      ((objectHeaders F o).lookup name).map F.arrives := fun name => lookup_received F _ name
  have hsize : requiredHeader (HttpResponse.deliver F ⟨status,objectHeaders F o,body⟩) "x-slate-size" =
      .ok (toString o.size) := by
    have hvalue : (HttpResponse.deliver F ⟨status,objectHeaders F o,body⟩).header "x-slate-size" =
        some (toString o.size) := by
      rw [hheader]
      exact congrArg some (arrives_toString F _)
    simp only [requiredHeader, hvalue, isHeaderText_printable (isPrintable_toString _), ↓reduceIte]
  have huploaded : requiredHeader (HttpResponse.deliver F ⟨status,objectHeaders F o,body⟩) "x-slate-uploaded" =
      .ok (F.toISOString o.uploaded) := by
    have hvalue : (HttpResponse.deliver F ⟨status,objectHeaders F o,body⟩).header "x-slate-uploaded" =
        some (F.toISOString o.uploaded) := by
      rw [hheader]
      exact congrArg some ((arrives_text F htext).trans htrim)
    simp only [requiredHeader, hvalue, htext, ↓reduceIte]
  have hetag : headerValue (HttpResponse.deliver F ⟨status,objectHeaders F o,body⟩) "etag" =
      .ok (some o.httpEtag) := by
    have hvalue : (HttpResponse.deliver F ⟨status,objectHeaders F o,body⟩).header "etag" = some o.httpEtag := by
      rw [hheader]
      exact congrArg some (arrives_quoted F o.etag)
    have htag : isHeaderText o.httpEtag = true := isHeaderText_printable (isPrintable_quoted o.etag)
    simp only [headerValue, hvalue, htag, ↓reduceIte]
  have hnamed : headerValue (HttpResponse.deliver F ⟨status,objectHeaders F o,body⟩) "x-slate-version" =
      .ok (some o.version) := by
    have hvalue : (HttpResponse.deliver F ⟨status,objectHeaders F o,body⟩).header "x-slate-version" =
        some o.version := by
      rw [hheader]
      exact congrArg some ((arrives_text F hversion).trans hversion')
    simp only [headerValue, hvalue, hversion, ↓reduceIte]
  have hnumber : parseU64 (toString o.size) = .ok o.size := by rw [parseU64_toString, if_pos ho.size]
  rw [objectMeta, hsize, huploaded, hetag, hnamed]
  change (parseU64 (toString o.size)).mapError generic >>= _ = _
  rw [hnumber]
  change (F.parseDate (F.toISOString o.uploaded)).mapError generic >>= _ = _
  rw [F.parseDate_toISOString]
  rfl

end Metadata

/-- The location and the conditions can be written into headers. -/
structure Sendable (F : Formats) (location : Path) (options : GetOptions) : Prop where
  location : F.isHeaderValue location.raw = true
  ifMatch : ∀ tag ∈ options.ifMatch, F.isHeaderValue tag = true
  ifNoneMatch : ∀ tag ∈ options.ifNoneMatch, F.isHeaderValue tag = true
  ifModifiedSince : ∀ date ∈ options.ifModifiedSince, HasFourDigitYear date
  ifUnmodifiedSince : ∀ date ∈ options.ifUnmodifiedSince, HasFourDigitYear date

section Requests
variable {F : Formats} {lib : Crate} {location : Path} {options : GetOptions} {head : Bool}

theorem WritesDates.isSome_iff (hF : WritesDates F) {date : DateTime} :
    (F.toRfc2822 date).isSome = true ↔ HasFourDigitYear date := by
  by_cases hyear : HasFourDigitYear date
  · obtain ⟨text,htext,_⟩ := hF.condition date hyear
    simp [htext, hyear]
  · simp [hF.panics date hyear, hyear]

theorem dateHeader_panics (hF : WritesDates F) {o : Option DateTime} (h : ¬ ∀ date ∈ o, HasFourDigitYear date)
    (name : String) : ∃ message, dateHeader F name o = .error (.panicked message) := by
  cases o with
  | none => simp at h
  | some date =>
    have hyear : ¬ HasFourDigitYear date := by simpa using h
    exact ⟨_,by rw [dateHeader, hF.panics date hyear]⟩

/-- A read with a date that has no form panics. -/
theorem readHeaders_panics (hF : WritesDates F) (lib : Crate)
    (h : ¬ ((∀ date ∈ options.ifModifiedSince, HasFourDigitYear date) ∧
      ∀ date ∈ options.ifUnmodifiedSince, HasFourDigitYear date)) :
    ∃ message, readHeaders F lib options = .error (.panicked message) := by
  by_cases hmodified : ∀ date ∈ options.ifModifiedSince, HasFourDigitYear date
  · obtain ⟨message,hpanics⟩ := dateHeader_panics hF (fun hunmodified => h ⟨hmodified,hunmodified⟩) "if-unmodified-since"
    have hwritten : dateHeader F "if-modified-since" options.ifModifiedSince = .ok _ :=
      dateHeader_ok.mpr ⟨fun date hdate => hF.isSome_iff.mpr (hmodified date hdate),rfl⟩
    exact ⟨message,by rw [readHeaders, hwritten, hpanics]; rfl⟩
  · obtain ⟨message,hpanics⟩ := dateHeader_panics hF hmodified "if-modified-since"
    exact ⟨message,by rw [readHeaders, hpanics]; rfl⟩

theorem readHeaders_conditions (hrange : options.range = none)
    (hmodified : ∀ date ∈ options.ifModifiedSince, (F.toRfc2822 date).isSome = true)
    (hunmodified : ∀ date ∈ options.ifUnmodifiedSince, (F.toRfc2822 date).isSome = true) :
    readHeaders F lib options = .ok (conditionHeaders F options) := by
  have hthird : rangeHeaders lib options.range = .ok [] := by rw [hrange, rangeHeaders]
  rw [readHeaders, dateHeader_ok.mpr ⟨hmodified,rfl⟩, dateHeader_ok.mpr ⟨hunmodified,rfl⟩, hthird]
  exact congrArg Except.ok (List.append_nil _)

theorem Sendable.readHeaders (hF : WritesDates F) (hrange : options.range = none) (h : Sendable F location options) :
    readHeaders F lib options = .ok (conditionHeaders F options) :=
  readHeaders_conditions hrange (fun date hdate => hF.isSome_iff.mpr (h.ifModifiedSince date hdate))
    fun date hdate => hF.isSome_iff.mpr (h.ifUnmodifiedSince date hdate)

theorem readRequest_sent (hF : WritesDates F)
    (hmodified : ∀ date ∈ options.ifModifiedSince, HasFourDigitYear date)
    (hunmodified : ∀ date ∈ options.ifUnmodifiedSince, HasFourDigitYear date) :
    (readRequest location head (conditionHeaders F options)).headers.all (fun h => F.isHeaderValue h.2) = true ↔
      Sendable F location options := by
  have htag : ∀ (o : Option String) (name : String),
      (o.map (fun value => (name,value))).toList.all (fun h => F.isHeaderValue h.2) = true ↔
        ∀ value ∈ o, F.isHeaderValue value = true := by
    intro o name
    cases o <;> simp
  have hdate : ∀ (o : Option DateTime) (name : String), (∀ date ∈ o, HasFourDigitYear date) →
      ((o.bind F.toRfc2822).map (fun text => (name,text))).toList.all (fun h => F.isHeaderValue h.2) = true := by
    intro o name ho
    refine (htag _ name).mpr fun text htext => ?_
    obtain ⟨date,hmem,hwritten⟩ := Option.bind_eq_some_iff.mp htext
    obtain ⟨_,hwritten',hheader⟩ := hF.condition date (ho date hmem)
    cases hwritten.symm.trans hwritten'
    exact F.isHeaderValue_text text hheader
  simp only [readRequest, request, List.cons_append, List.nil_append, List.all_cons, conditionHeaders,
    List.all_append, hdate _ _ hmodified, hdate _ _ hunmodified, htag, Bool.and_true, Bool.and_eq_true]
  constructor
  · rintro ⟨hlocation,hmatch,hnone⟩
    exact ⟨hlocation,hmatch,hnone,hmodified,hunmodified⟩
  · rintro ⟨hlocation,hmatch,hnone,_,_⟩
    exact ⟨hlocation,hmatch,hnone⟩

end Requests

section Answers
variable {F : Formats} {lib : Crate} {location : Path} {options : GetOptions} {R : Rules}
  {found : Option Object}

theorem once_eval {r : R2.Request} {encode : Value r → HttpResponse}
    {bucket : (r : R2.Request) → R2.Reply r} : (once r encode).eval bucket = .ok (encoded encode (bucket r)) := by
  change ((Prog.orElse (bucket r) .err >>= fun v => pure (encode v)).recover caught).eval bucket = _
  cases bucket r with
  | error e => rfl
  | ok v => rfl

theorem Sendable.request (hF : WritesDates F) (h : Sendable F location options) {head : Bool} :
    (readRequest location head (conditionHeaders F options)).headers.all (fun h => F.isHeaderValue h.2) = true :=
  (readRequest_sent hF h.ifModifiedSince h.ifUnmodifiedSince).mpr h

def delivered (F : Formats) (location : Path) (options : GetOptions) : HttpRequest :=
  ((readRequest location false (conditionHeaders F options)).deliver F)

theorem operation_none {head : Bool} :
    ((readRequest location head (conditionHeaders F options)).deliver F).header "x-slate-operation" = none := by
  rw [readRequest_header (by decide), conditionHeaders_lookup]
  rfl

theorem bridging_root {bucket : (r : R2.Request) → R2.Reply r} (hk : bridgeKey F location = "") (head : Bool) :
    bridging F bucket (.send (readRequest location head (conditionHeaders F options))) =
      .ok (HttpResponse.deliver F (textResponse 500 "missing x-slate-path")) := by
  have hpath : objectPath ((readRequest location head (conditionHeaders F options)).deliver F) =
      .error "missing x-slate-path" := by
    simp only [objectPath, readRequest_path, hk, ↓reduceIte]
  rw [bridging, handleR2, dispatch]
  simp only [operation_none, Option.getD_none, String.reduceEq, ↓reduceIte, hpath, Prog.orElse_error,
    Prog.err_bind, Prog.recover_err]
  rfl

theorem bridging_head (hk : bridgeKey F location ≠ "") :
    bridging F (holding R found) (.send (readRequest location true (conditionHeaders F options))) =
      .ok ((headResponse F found).deliver F) := by
  have hpath : objectPath ((readRequest location true (conditionHeaders F options)).deliver F) =
      .ok (bridgeKey F location) := by
    simp only [objectPath, readRequest_path, hk, ↓reduceIte]
  rw [bridging, handleR2_head hpath rfl operation_none, once_eval]
  rfl

theorem bridging_get (R : Rules) (found : Option Object) (options : GetOptions) (hk : bridgeKey F location ≠ "") :
    bridging F (holding R found) (.send (readRequest location false (conditionHeaders F options))) =
      .ok ((encoded (getResponse F (delivered F location options)) (holding R found (.get (bridgeKey F location)
        (.headers (delivered F location options).headers)
        (.headers (delivered F location options).headers)))).deliver F) := by
  have hpath : objectPath ((readRequest location false (conditionHeaders F options)).deliver F) =
      .ok (bridgeKey F location) := by
    simp only [objectPath, readRequest_path, hk, ↓reduceIte]
  rw [bridging, handleR2_get hpath rfl operation_none, once_eval]
  rfl

theorem getOpts_eval {answer : (q : Exchange) → Answer q} {response : HttpResponse}
    (hversion : options.version = none) (hrange : options.range = none)
    (hheaders : readHeaders F lib options = .ok (conditionHeaders F options))
    (hsent : (readRequest location options.head (conditionHeaders F options)).headers.all
      (fun h => F.isHeaderValue h.2) = true)
    (hanswer : answer (.send (readRequest location options.head (conditionHeaders F options))) = .ok response) :
    (getOpts F lib location options).eval answer =
      match readRefused location response.status with
      | some e => .error e
      | none => (checkResponse F response).eval answer >>= fun response =>
        objectMeta F location response >>= fun metadata =>
          lib.checkPreconditions options metadata >>= fun _ =>
            .ok ⟨if options.head then [] else response.body.arrayBuffer F,metadata,(0,metadata.size)⟩ := by
  unfold getOpts
  rw [increment_eval, hversion, Option.isSome_none, if_neg Bool.false_ne_true, hheaders,
    Prog.orElse_ok, Prog.ok_bind, Prog.eval_bind_ok (send_eval hsent hanswer)]
  cases hrefused : readRefused location response.status with
  | some e => rfl
  | none =>
    simp only [Prog.eval_bind]
    congr 1
    funext response
    cases objectMeta F location response with
    | error e => rfl
    | ok metadata =>
      simp only [Prog.orElse_ok, Prog.eval_ok, hrange, returnedRange, bind, Except.bind]
      cases lib.checkPreconditions options metadata with
      | error e => rfl
      | ok u => rfl

/-- A read that cannot be sent, or names the root, has no verdict. -/
theorem verdict_unsent (options : GetOptions) (hF : WritesDates F) (hversion : options.version = none)
    (hrange : options.range = none) (h : ¬ (Sendable F location options ∧ bridgeKey F location ≠ "")) (lib : Crate)
    (bucket : (r : R2.Request) → R2.Reply r) :
    verdict ((getOpts F lib location options).eval (bridging F bucket)) = none := by
  by_cases hdates : (∀ date ∈ options.ifModifiedSince, HasFourDigitYear date) ∧
      ∀ date ∈ options.ifUnmodifiedSince, HasFourDigitYear date
  · obtain ⟨hmodified,hunmodified⟩ := hdates
    have hheaders : readHeaders F lib options = .ok (conditionHeaders F options) :=
      readHeaders_conditions hrange (fun date hdate => hF.isSome_iff.mpr (hmodified date hdate))
        fun date hdate => hF.isSome_iff.mpr (hunmodified date hdate)
    by_cases hsent : (readRequest location options.head (conditionHeaders F options)).headers.all
        (fun h => F.isHeaderValue h.2) = true
    · have hroot : bridgeKey F location = "" := by
        by_contra hk
        exact h ⟨(readRequest_sent hF hmodified hunmodified).mp hsent,hk⟩
      rw [getOpts_eval hversion hrange hheaders hsent (bridging_root hroot options.head)]
      rfl
    · have hfails : (send F (readRequest location options.head (conditionHeaders F options))).eval
          (bridging F bucket) = .error (generic "builder error") := by
        rw [send, if_neg hsent]
        rfl
      unfold getOpts
      rw [increment_eval, hversion, Option.isSome_none, if_neg Bool.false_ne_true, hheaders,
        Prog.orElse_ok, Prog.ok_bind, Prog.eval_bind, hfails]
      rfl
  · obtain ⟨message,hpanics⟩ := readHeaders_panics hF lib hdates
    unfold getOpts
    rw [increment_eval, hversion, Option.isSome_none, if_neg Bool.false_ne_true, hpanics]
    rfl

end Answers

/-- R2 returns a body exactly if the check accepts the object. -/
structure ReadsChecked (R : Rules) (F : Formats) (lib : Crate) (location : Path) (options : GetOptions)
    (o : Object) : Prop where
  accepted : lib.checkPreconditions options (bridgedMeta location o) = .ok () →
    R.read (.headers (delivered F location options).headers) (.headers (delivered F location options).headers) o =
      some (some o.content)
  refused : ∀ e, lib.checkPreconditions options (bridgedMeta location o) = .error e →
    R.read (.headers (delivered F location options).headers) (.headers (delivered F location options).headers) o =
      some none

section Verdicts
variable {F : Formats} {lib : Crate} {location : Path} {options : GetOptions} {R : Rules}
  {found : Option Object}

theorem verdict_described (hF : WritesDates F) (hversion : options.version = none) (hrange : options.range = none)
    (hsent : Sendable F location options) {o : Object} (ho : Described o) {body : Body}
    {answer : (q : Exchange) → Answer q}
    (hanswer : answer (.send (readRequest location options.head (conditionHeaders F options))) =
      .ok (HttpResponse.deliver F ⟨200,objectHeaders F o,body⟩)) :
    verdict ((getOpts F lib location options).eval answer) = judged lib location options (some o) := by
  have hchecked : (checkResponse F (HttpResponse.deliver F ⟨200,objectHeaders F o,body⟩)).eval answer =
      .ok (HttpResponse.deliver F ⟨200,objectHeaders F o,body⟩) := checkResponse_eval rfl
  have hrefused : readRefused location (HttpResponse.deliver F ⟨200,objectHeaders F o,body⟩).status = none := rfl
  rw [getOpts_eval hversion hrange (hsent.readHeaders hF hrange) (hsent.request hF) hanswer, hrefused, hchecked]
  simp only [bind, Except.bind, objectMeta_described hF ho, judged]
  cases lib.checkPreconditions options (bridgedMeta location o) with
  | error e => cases e <;> rfl
  | ok u => rfl

theorem verdict_refused (hF : WritesDates F) (hversion : options.version = none) (hrange : options.range = none)
    (hsent : Sendable F location options) {response : HttpResponse} {answer : (q : Exchange) → Answer q}
    (hanswer : answer (.send (readRequest location options.head (conditionHeaders F options))) = .ok response)
    {e : Error} (he : readRefused location response.status = some e) :
    verdict ((getOpts F lib location options).eval answer) = verdict (.error e : Except Error GetResult) := by
  rw [getOpts_eval hversion hrange (hsent.readHeaders hF hrange) (hsent.request hF) hanswer, he]

theorem verdict_head (hF : WritesDates F) (hversion : options.version = none) (hrange : options.range = none)
    (hsent : Sendable F location options) (hk : bridgeKey F location ≠ "") (hfound : ∀ o ∈ found, Described o)
    (hhead : options.head = true) :
    verdict ((getOpts F lib location options).eval (bridging F (holding R found))) =
      judged lib location options found := by
  have hanswer : bridging F (holding R found)
      (.send (readRequest location options.head (conditionHeaders F options))) =
        .ok ((headResponse F found).deliver F) := by
    rw [hhead]
    exact bridging_head hk
  cases found with
  | none => exact verdict_refused hF hversion hrange hsent hanswer rfl
  | some o => exact verdict_described hF hversion hrange hsent (hfound o rfl) hanswer

theorem verdict_absent (hF : WritesDates F) (hversion : options.version = none) (hrange : options.range = none)
    (hsent : Sendable F location options) (hk : bridgeKey F location ≠ "") (hhead : options.head = false) :
    verdict ((getOpts F lib location options).eval (bridging F (holding R none))) = some .notFound := by
  have hanswer : bridging F (holding R none)
      (.send (readRequest location options.head (conditionHeaders F options))) =
        .ok ((emptyResponse 404).deliver F) := by
    rw [hhead]
    exact bridging_get R none options hk
  exact verdict_refused hF hversion hrange hsent hanswer rfl

def named (options : GetOptions) : Except Error Unit → Verdict
  | .ok () => .success
  | .error _ => if options.ifNoneMatch.isSome || options.ifModifiedSince.isSome then .notModified else .precondition

/-- A read for content is judged by R2, and the verdict named by the headers that were sent. -/
theorem verdict_content (options : GetOptions) (hF : WritesDates F) (hversion : options.version = none) (hrange : options.range = none)
    (hsent : Sendable F location options) (hk : bridgeKey F location ≠ "") (hhead : options.head = false)
    {o : Object} (ho : Described o) (hread : ReadsChecked R F lib location options o) :
    verdict ((getOpts F lib location options).eval (bridging F (holding R (some o)))) =
      some (named options (lib.checkPreconditions options (bridgedMeta location o))) := by
  have hget := bridging_get (F := F) R (some o) options hk
  cases hcheck : lib.checkPreconditions options (bridgedMeta location o) with
  | ok u =>
    have hanswer : bridging F (holding R (some o))
        (.send (readRequest location options.head (conditionHeaders F options))) =
          .ok (HttpResponse.deliver F ⟨200,objectHeaders F o,.bytes o.content⟩) := by
      rw [hhead, hget]
      simp only [holding, hread.accepted hcheck, encoded, getResponse]
    rw [verdict_described hF hversion hrange hsent ho hanswer, judged, hcheck]
    rfl
  | error e =>
    have hnone : ((delivered F location options).header "if-none-match").isSome = options.ifNoneMatch.isSome := by
      rw [delivered, readRequest_header (by decide), conditionHeaders_lookup, Option.isSome_map]
      rfl
    have hmodified : ((delivered F location options).header "if-modified-since").isSome =
        options.ifModifiedSince.isSome := by
      rw [delivered, readRequest_header (by decide), conditionHeaders_lookup, Option.isSome_map]
      change (options.ifModifiedSince.bind F.toRfc2822).isSome = _
      cases hdate : options.ifModifiedSince with
      | none => rfl
      | some date => exact hF.isSome_iff.mpr (hsent.ifModifiedSince date hdate)
    have hanswer : bridging F (holding R (some o))
        (.send (readRequest location options.head (conditionHeaders F options))) =
          .ok (HttpResponse.deliver F (emptyResponse
            (if (options.ifNoneMatch.isSome || options.ifModifiedSince.isSome) = true then 304 else 412)
            (objectHeaders F o))) := by
      rw [hhead, hget]
      simp only [holding, hread.refused e hcheck, encoded, getResponse, hnone, hmodified]
    rw [named]
    split
    next hgiven =>
      rw [if_pos hgiven] at hanswer
      exact verdict_refused hF hversion hrange hsent hanswer rfl
    next hgiven =>
      rw [if_neg hgiven] at hanswer
      exact verdict_refused hF hversion hrange hsent hanswer rfl

/-- The bridge misnames only a failed precondition, next to a condition of the other kind. -/
theorem named_iff (hlib : Judges lib) (o : Object) :
    some (named options (lib.checkPreconditions options (bridgedMeta location o))) =
        judged lib location options (some o) ↔
      (judged lib location options (some o) = some .precondition →
        options.ifNoneMatch = none ∧ options.ifModifiedSince = none) := by
  rw [judged]
  cases hcheck : lib.checkPreconditions options (bridgedMeta location o) with
  | ok u => exact ⟨fun _ h => (by cases h),fun _ => rfl⟩
  | error e =>
    have hgiven : ¬ (options.ifNoneMatch.isSome || options.ifModifiedSince.isSome) = true ↔
        options.ifNoneMatch = none ∧ options.ifModifiedSince = none := by simp
    rcases hlib.refuses _ _ _ hcheck with ⟨path,source,rfl⟩ | ⟨⟨path,source,rfl⟩,hsome⟩
    · rw [← hgiven]
      by_cases h : (options.ifNoneMatch.isSome || options.ifModifiedSince.isSome) = true
      · simp [named, h, verdict]
      · simp [named, h, verdict]
    · rw [named, if_pos hsome]
      exact ⟨fun _ h => (by cases h),fun _ => rfl⟩

theorem judged_ne_none (hlib : Judges lib) : judged lib location options found ≠ none := by
  cases found with
  | none => exact Option.some_ne_none _
  | some o =>
    rw [judged]
    cases hcheck : lib.checkPreconditions options (bridgedMeta location o) with
    | ok u => exact Option.some_ne_none _
    | error e =>
      rcases hlib.refuses _ _ _ hcheck with ⟨path,source,rfl⟩ | ⟨⟨path,source,rfl⟩,_⟩
      · exact Option.some_ne_none _
      · exact Option.some_ne_none _

/-- Both kinds of reads give the verdict of the check exactly if they can be sent, name no
root, and no failed `If-Match` or `If-Unmodified-Since` comes with a condition of the other kind. -/
theorem judgesAs_iff (hF : WritesDates F) (hlib : Judges lib) (hversion : options.version = none)
    (hrange : options.range = none) (hfound : ∀ o ∈ found, Described o)
    (hread : ∀ o ∈ found, ReadsChecked R F lib location options o) :
    JudgesAs R F lib location found options ↔
      Sendable F location options ∧ bridgeKey F location ≠ "" ∧
        ∀ o ∈ found, judged lib location options (some o) = some .precondition →
          options.ifNoneMatch = none ∧ options.ifModifiedSince = none := by
  have hsendable : ∀ head, Sendable F location { options with head := head } ↔ Sendable F location options :=
    fun head => ⟨fun ⟨h₁,h₂,h₃,h₄,h₅⟩ => ⟨h₁,h₂,h₃,h₄,h₅⟩,fun ⟨h₁,h₂,h₃,h₄,h₅⟩ => ⟨h₁,h₂,h₃,h₄,h₅⟩⟩
  have hjudged : ∀ head, judged lib location { options with head := head } found =
      judged lib location options found := by
    intro head
    cases found with
    | none => rfl
    | some o => simp only [judged, hlib.head]
  have hcontent : ∀ o ∈ found, Sendable F location options → bridgeKey F location ≠ "" →
      verdict ((getOpts F lib location { options with head := false }).eval (bridging F (holding R (some o)))) =
        some (named options (lib.checkPreconditions options (bridgedMeta location o))) := by
    intro o ho hsent hk
    obtain ⟨haccepted,hrefused⟩ := hread o ho
    have hcheck := hlib.head options false (bridgedMeta location o)
    have hchecked : ReadsChecked R F lib location { options with head := false } o :=
      ⟨fun h => haccepted (hcheck.symm.trans h),fun e h => hrefused e (hcheck.symm.trans h)⟩
    have hsent' : Sendable F location { options with head := false } := (hsendable false).mpr hsent
    have hverdict := verdict_content { options with head := false } hF hversion hrange hsent' hk rfl
      (hfound o ho) hchecked
    rw [hcheck] at hverdict
    exact hverdict
  constructor
  · intro h
    have hsent : Sendable F location options ∧ bridgeKey F location ≠ "" := by
      by_contra hnot
      have hnot' : ¬ (Sendable F location { options with head := false } ∧ bridgeKey F location ≠ "") :=
        fun ⟨h₁,h₂⟩ => hnot ⟨(hsendable false).mp h₁,h₂⟩
      have hnone := verdict_unsent { options with head := false } hF hversion hrange hnot' lib (holding R found)
      exact judged_ne_none hlib ((h false).symm.trans hnone)
    refine ⟨hsent.1,hsent.2,fun o ho => ?_⟩
    rw [Option.mem_def] at ho
    subst ho
    exact (named_iff hlib o).mp ((hcontent o rfl hsent.1 hsent.2).symm.trans (h false))
  · rintro ⟨hsent,hk,hother⟩ head
    cases head with
    | true =>
      rw [← hjudged true]
      exact verdict_head hF hversion hrange ((hsendable true).mpr hsent) hk hfound rfl
    | false =>
      cases found with
      | none => exact verdict_absent hF hversion hrange ((hsendable false).mpr hsent) hk rfl
      | some o => exact (hcontent o rfl hsent hk).trans ((named_iff hlib o).mpr (hother o rfl))

end Verdicts

theorem isPrintable_date (date : DateTime) : isPrintable (toString date) = true := by
  cases date with
  | ofNat n => exact isPrintable_toString n
  | negSucc n =>
    have htext : (toString (Int.negSucc n)).toList = '-' :: (toString (n + 1)).toList := by
      have h : toString (Int.negSucc n) = "-" ++ toString (n + 1) := rfl
      rw [h, String.toList_append]
      rfl
    change isPrintable (toString (Int.negSucc n)) = true
    rw [isPrintable_iff, htext]
    exact List.forall_mem_cons.mpr ⟨by decide,isPrintable_iff.mp (isPrintable_toString (n + 1))⟩

theorem plain_writesDates : WritesDates .plain where
  uploaded ms :=
    ⟨isHeaderText_printable (isPrintable_toString ms),trimBlanks_printable (isPrintable_toString ms)⟩
  condition date hyear := ⟨_,if_pos hyear,isHeaderText_printable (isPrintable_date date)⟩
  panics _ hyear := if_neg hyear

theorem standard_judges : Judges .standard where
  head _ _ _ := rfl
  refuses options m e h := by
    change Crate.preconditions options m = .error e at h
    unfold Crate.preconditions at h
    simp only at h
    split_ifs at h with hmatched hfresh
    · exact .inl ⟨_,_,(Except.error.inj h).symm⟩
    · refine .inr ⟨⟨_,_,(Except.error.inj h).symm⟩,?_⟩
      cases hnone : options.ifNoneMatch with
      | some tag => rfl
      | none =>
        cases hsince : options.ifModifiedSince with
        | some date => rfl
        | none => simp [hnone, hsince] at hfresh

theorem abc_valid : "abc".toList.all isETagChar = true := by decide

def sevenBytes : Object := ⟨"a","v",⟨"abc",abc_valid⟩,1000,[1,2,3,4,5,6,7]⟩

/-- A tag that does not match next to a tag that may: the precondition fails, and a read for
content says that nothing was modified. -/
theorem precondition_misnamed :
    ¬ JudgesAs .standard .plain .standard ⟨"a",by decide⟩ (some sevenBytes)
      { ifMatch := some "\"x\"", ifNoneMatch := some "\"y\"" } := by
  intro h
  have hread : ReadsChecked .standard .plain .standard ⟨"a",by decide⟩
      { ifMatch := some "\"x\"", ifNoneMatch := some "\"y\"" } sevenBytes :=
    ⟨fun h => absurd h (by decide),fun _ _ => by decide +kernel⟩
  have hsent : Sendable .plain ⟨"a",by decide⟩ { ifMatch := some "\"x\"", ifNoneMatch := some "\"y\"" } :=
    ⟨by decide,by decide,by decide,by decide,by decide⟩
  have hverdict := verdict_content _ plain_writesDates rfl rfl hsent (by decide +kernel) rfl ⟨by decide,by decide⟩ hread
  exact absurd (hverdict.symm.trans (h false)) (by decide)

/-- The wildcard, and a tag beyond ASCII next to a date. -/
theorem judgesAs_any :
    JudgesAs .standard .plain .standard ⟨"a",by decide⟩ (some sevenBytes) { ifMatch := some "*" } ∧
      JudgesAs .standard .plain .standard ⟨"a",by decide⟩ (some sevenBytes)
        { ifMatch := some "\"é\"", ifUnmodifiedSince := some 5000000000 } := by
  have hdescribed : ∀ o ∈ some sevenBytes, Described o := by
    rintro o ⟨⟩
    exact ⟨by decide,by decide⟩
  constructor
  · refine (judgesAs_iff plain_writesDates standard_judges rfl rfl hdescribed ?_).mpr ⟨?_,by decide +kernel,?_⟩
    · rintro o ⟨⟩
      exact ⟨fun _ => by decide +kernel,fun e h => by cases h⟩
    · exact ⟨by decide,by decide,by decide,by decide,by decide⟩
    · rintro o ⟨⟩ h
      exact absurd h (by decide)
  · refine (judgesAs_iff plain_writesDates standard_judges rfl rfl hdescribed ?_).mpr ⟨?_,by decide +kernel,?_⟩
    · rintro o ⟨⟩
      exact ⟨fun h => absurd h (by decide),fun _ _ => by decide +kernel⟩
    · exact ⟨by decide,by decide,by decide,by decide,by decide⟩
    · rintro o ⟨⟩ _
      exact ⟨rfl,rfl⟩

end SlatedbCloudflare.BindingStore
