import SlatedbCloudflare.Library.Counting
import SlatedbCloudflare.Multipart.AdapterCall
import SlatedbCloudflare.Container.Client

/-! # How failures of R2 are counted

Both adapters have a counter `r2Errors`. It should grow by one with each call that
fails because of R2, and stay as it is with each call that succeeds.
-/
namespace SlatedbCloudflare
open Programs Counting ObjectStore R2 Http Multipart

namespace R2Store
open Perf

def Failing : (d : Demand Request) × Supply Reply d → Prop
  | ⟨.store r,x⟩ => r ≠ .bucket ∧ ∃ e, x = .error e
  | _ => False

/-- Starting an upload fails, or resuming it in `complete` or `abort`. -/
def Unseen (call : AdapterCall) : (d : Demand Request) × Supply Reply d → Prop
  | ⟨.store (.createMultipartUpload _),x⟩ => ∃ e, x = .error e
  | ⟨.store (.resumeMultipartUpload _ _),x⟩ => (∀ h data, call ≠ .putPart h data) ∧ ∃ e, x = .error e
  | _ => False

theorem Unseen.failing {call : AdapterCall} {x : (d : Demand Request) × Supply Reply d}
    (h : Unseen call x) : Failing x := by
  obtain ⟨d,x⟩ := x
  cases d with
  | push | parts => exact h.elim
  | store r =>
    cases r with
    | createMultipartUpload key => exact ⟨nofun,h⟩
    | resumeMultipartUpload key uploadId => exact ⟨nofun,h.2⟩
    | _ => exact h.elim

section
variable {α β : Type} {call : AdapterCall}

abbrev Tallied (call : AdapterCall) (p : R2UploadM α) : Prop := Tallies .r2Errors Failing (Unseen call) p

theorem Tallied.then {p : R2UploadM α} {f : α → R2UploadM β} (hp : Tallied call p)
    (hf : ∀ a, Tallied call (f a)) : Tallied call (p >>= f) := hp.bind (fun _ => Unseen.failing) hf

def StoreTallied (call : AdapterCall) (p : R2M α) : Prop := Tallied call (onStore p)

theorem StoreTallied.then {p : R2M α} {f : α → R2M β} (hp : StoreTallied call p)
    (hf : ∀ a, StoreTallied call (f a)) : StoreTallied call (p >>= f) := by
  rw [StoreTallied, onStore_bind]
  exact Tallied.then hp hf

theorem tallied_ok (a : α) : StoreTallied call (.ok a) := .ok a

theorem tallied_err (e : Error) : StoreTallied call (.err e : R2M α) := .err e

theorem tallied_increment {counter : PerfCounter} (h : counter ≠ .r2Errors) (value : ℕ) :
    StoreTallied call (increment counter value) := .emit h value (.ok ())

theorem tallied_result {E : Type} (x : Except E α) (f : E → Error) :
    StoreTallied call (Prog.orElse x (fun e => .err (f e))) := by
  cases x with
  | ok a => exact .ok a
  | error e => exact .err (f e)

theorem tallied_bucket : StoreTallied call bucket := by
  refine .call (fun x _ => ⟨id,?_⟩) fun x hx => absurd rfl hx.1
  rcases x with e | ⟨⟩
  · exact .err _
  · exact .ok _

theorem tallied_r2 {r : Request} (hr : r ≠ .bucket) (h : ∀ x, ¬ Unseen call ⟨.store r,x⟩) :
    StoreTallied call (r2 r) := by
  refine .call (fun x hx => ⟨h x,?_⟩) fun x hx tr os result hreturns => ?_
  · rcases x with e | v
    · exact absurd ⟨hr,e,rfl⟩ hx
    · exact .ok v
  · obtain ⟨_,e,rfl⟩ := hx
    obtain ⟨os',rfl,hnext⟩ := hreturns.of_emit
    obtain ⟨rfl,rfl,rfl⟩ := hnext.of_err
    exact ⟨rfl,fun _ => ⟨_,rfl⟩,fun _ _ => rfl,fun _ hu => absurd hu (h _),fun ⟨_,hok⟩ => by cases hok⟩

theorem tallied_unseen {r : Request} (hr : r ≠ .bucket) (h : ∀ e, Unseen call ⟨.store r,.error e⟩) :
    StoreTallied call (Prog.ask r >>= fun x => Prog.orElse x (fun e => .err (generic e))) := by
  refine .call (fun x hx => ?_) fun x hx tr os result hreturns => ?_
  · rcases x with e | v
    · exact absurd ⟨hr,e,rfl⟩ hx
    · refine ⟨fun hu => ?_,.ok v⟩
      obtain ⟨_,e,he⟩ := hu.failing
      cases he
  · obtain ⟨_,e,rfl⟩ := hx
    obtain ⟨rfl,rfl,rfl⟩ := hreturns.of_err
    exact ⟨rfl,fun _ => ⟨_,rfl⟩,fun _ hu => absurd (h e) hu,fun _ _ => rfl,fun ⟨_,hok⟩ => by cases hok⟩

theorem putOpts_tallied (location : Path) (payload : List Bytes) (mode : PutMode) :
    StoreTallied call (putOpts location payload mode) := by
  refine (tallied_increment (by decide) 1).then fun _ => tallied_bucket.then fun _ => ?_
  refine StoreTallied.then (tallied_result (putConditional mode) id) fun c => ?_
  refine (tallied_r2 (by nofun) fun _ => id).then fun object => ?_
  cases object with
  | none => exact tallied_err _
  | some object => exact (tallied_increment (by decide) _).then fun _ => tallied_ok _

theorem fetchObject_tallied (lib : Crate) (k : String) (options : GetOptions) :
    StoreTallied call (fetchObject lib k options) := by
  unfold fetchObject
  split
  · exact (tallied_r2 (by nofun) fun _ => id).then fun object => tallied_ok _
  · dsimp only
    split
    · rename_i range hrange
      cases toR2Range lib range with
      | error e => exact tallied_err e
      | ok r => exact tallied_r2 (by nofun) fun _ => id
    · exact tallied_r2 (by nofun) fun _ => id

theorem getInner_tallied (lib : Crate) (location : Path) (options : GetOptions) :
    StoreTallied call (getInner lib location options) := by
  unfold getInner
  refine (tallied_increment (by cases options.head <;> decide) 1).then fun _ => ?_
  split
  · exact tallied_err _
  refine tallied_bucket.then fun _ => (fetchObject_tallied lib _ options).then fun found => ?_
  rcases found with _ | ⟨object,body⟩
  · exact tallied_err _
  refine StoreTallied.then (tallied_result (lib.checkPreconditions options _) id) fun _ => ?_
  refine StoreTallied.then (tallied_result (returnedRange lib options.range _) id) fun range => ?_
  split
  · exact tallied_ok _
  · cases body with
    | none => exact tallied_err _
    | some body =>
      refine (tallied_r2 (by nofun) fun _ => id).then fun bytes => ?_
      exact (tallied_increment (by decide) _).then fun _ => tallied_ok _

theorem listPage_tallied (E : PathEncoding) (lib : Crate) (keyPrefix cursor delimiter : Option String) :
    StoreTallied call (listPage E lib keyPrefix cursor delimiter) := by
  refine (tallied_increment (by decide) 1).then fun _ => tallied_bucket.then fun _ => ?_
  exact (tallied_r2 (by nofun) fun _ => id).then fun objects => tallied_ok _

theorem delete_tallied (location : Path) : StoreTallied call (R2Store.delete location) := by
  refine (tallied_increment (by decide) 1).then fun _ => tallied_bucket.then fun _ => ?_
  exact (tallied_r2 (by nofun) fun _ => id).then fun _ => tallied_ok _

theorem putMultipartOpts_tallied (location : Path) : StoreTallied call (putMultipartOpts location) := by
  refine (tallied_increment (by decide) 1).then fun _ => tallied_bucket.then fun _ => ?_
  have hcreate : StoreTallied call (Prog.ask (Request.createMultipartUpload (key location)) >>= fun x =>
      Prog.orElse x (fun e => .err (generic e))) := tallied_unseen (by nofun) fun e => ⟨e,rfl⟩
  exact hcreate.then fun uploadId => tallied_ok _

theorem uploadPart_tallied (h : Handle) (data : List Bytes) (location : Path) (uploadId : String) (n : ℕ) :
    Tallied (.putPart h data) (uploadPart location uploadId n data) := by
  have hsent : StoreTallied (.putPart h data) (sendPart location uploadId n data) := by
    refine tallied_bucket.then fun _ => ?_
    have hresume : StoreTallied (.putPart h data) (r2 (.resumeMultipartUpload (key location) uploadId)) :=
      tallied_r2 (by nofun) fun _ hu => hu.1 h data rfl
    refine hresume.then fun _ => (tallied_r2 (by nofun) fun _ => id).then fun part => ?_
    exact (tallied_increment (by decide) 1).then fun _ => (tallied_increment (by decide) _).then fun _ => tallied_ok _
  refine Tallied.then hsent fun part => .call (fun x _ => ⟨id,?_⟩) fun x hx => hx.elim
  cases x with
  | error e => exact .err _
  | ok v => exact .ok v

theorem resume_tallied (hcall : ∀ h data, call ≠ .putPart h data) (k uploadId : String) :
    StoreTallied call (resume k uploadId) :=
  tallied_unseen (by nofun) fun e => ⟨hcall,e,rfl⟩

theorem completeUpload_tallied (hcall : ∀ h data, call ≠ .putPart h data) (location : Path)
    (uploadId : String) : Tallied call (completeUpload location uploadId) := by
  have hopened : StoreTallied call (bucket >>= fun _ => resume (key location) uploadId) :=
    tallied_bucket.then fun _ => resume_tallied hcall _ _
  refine Tallied.then hopened fun _ => .call (fun x _ => ⟨id,?_⟩) fun x hx => hx.elim
  cases x with
  | error e => exact .err _
  | ok parts =>
    have hsent : StoreTallied call (sendComplete location uploadId (sortParts parts)) := by
      refine (tallied_r2 (by nofun) fun _ => id).then fun object => ?_
      exact (tallied_increment (by decide) 1).then fun _ => tallied_ok _
    exact hsent

theorem abortUpload_tallied (hcall : ∀ h data, call ≠ .putPart h data) (location : Path)
    (uploadId : String) : Tallied call (abortUpload location uploadId) := by
  have hall : StoreTallied call (bucket >>= fun _ => resume (key location) uploadId >>= fun _ =>
      r2 (.abortMultipartUpload (key location) uploadId)) :=
    tallied_bucket.then fun _ => (resume_tallied hcall _ _).then fun _ => tallied_r2 (by nofun) fun _ => id
  exact hall

end

theorem run_tallied (E : PathEncoding) (lib : Crate) (call : AdapterCall) : Tallied call (run E lib call) := by
  have hstore : ∀ {α : Type} {p : R2M α}, StoreTallied call p →
      Tallied call (onStore (p >>= fun _ => pure ())) := fun hp => hp.then fun _ => tallied_ok ()
  cases call with
  | put location payload mode => exact hstore (putOpts_tallied location payload mode)
  | get location options => exact hstore (getInner_tallied lib location options)
  | listPage keyPrefix cursor delimiter => exact hstore (listPage_tallied E lib keyPrefix cursor delimiter)
  | delete location => exact hstore (delete_tallied location)
  | start location => exact hstore (putMultipartOpts_tallied location)
  | putPart h data =>
    simp only [run, Adapter.putPart]
    split
    · exact .err _
    · split
      · exact .err _
      · exact uploadPart_tallied h data _ _ _
  | complete h =>
    simp only [run, Adapter.complete]
    split
    · exact .err _
    · exact (completeUpload_tallied (by intro _ _ hcall; cases hcall) _ _).then fun _ => .ok ()
  | abort h =>
    simp only [run, Adapter.abort]
    split
    · exact .err _
    · exact abortUpload_tallied (by intro _ _ hcall; cases hcall) _ _

end R2Store

namespace BindingStore

/-- The bridge answers 500, or its answer cannot be read to the end. -/
def Unseen (tr : UploadReplies) : Prop :=
  ∃ q response, ⟨.store (.send q),.ok response⟩ ∈ tr ∧ (response.status = 500 ∨
    isSuccess response.status = true ∧ ∃ e, ⟨.store (.receive response.body),.error e⟩ ∈ tr)

def Failing (tr : UploadReplies) : Prop :=
  (∃ q e, ⟨.store (.send q),.error e⟩ ∈ tr) ∨ Unseen tr

def Broken (x : (d : Demand Exchange) × Supply Answer d) : Prop :=
  ∃ body e, x = ⟨.store (.receive body),.error e⟩

section
variable {α β : Type}

/-- The program sends nothing and counts no error, but fails if a body breaks off. -/
def Silent : BindingUploadM α → Prop
  | .ok _ => True
  | .err _ => True
  | .emit o next => o.1 ≠ .errors ∧ Silent next
  | .call d next => (∀ q, d ≠ .store (.send q)) ∧
      ∀ x, Silent (next x) ∧ (Broken ⟨d,x⟩ → (next x).Fails)

theorem Silent.bind {p : BindingUploadM α} {f : α → BindingUploadM β} (hp : Silent p)
    (hf : ∀ a, Silent (f a)) : Silent (p >>= f) := by
  induction p with
  | ok a => exact hf a
  | err e => trivial
  | emit o next ih => exact ⟨hp.1,ih hp.2⟩
  | call d next ih => exact ⟨hp.1,fun x => ⟨ih x (hp.2 x).1,fun hx => ((hp.2 x).2 hx).bind⟩⟩

theorem Silent.returns {p : BindingUploadM α} {tr : UploadReplies} {os : List (Counter × ℕ)}
    {r : Except Error α} (hp : Silent p) (h : Returns p tr os r) :
    raised .errors os = 0 ∧ (∀ q x, ⟨.store (.send q),x⟩ ∉ tr) ∧ ((∃ x ∈ tr, Broken x) → ∃ e, r = .error e) := by
  induction p generalizing tr os with
  | ok a =>
    obtain ⟨rfl,rfl,rfl⟩ := h.of_ok
    exact ⟨rfl,by simp,by simp⟩
  | err e =>
    obtain ⟨rfl,rfl,rfl⟩ := h.of_err
    exact ⟨rfl,by simp,by simp⟩
  | emit o next ih =>
    obtain ⟨os',rfl,hnext⟩ := h.of_emit
    rw [raised_cons_ne _ hp.1]
    exact ih hp.2 hnext
  | call d next ih =>
    obtain ⟨x,tr',rfl,hnext⟩ := h.of_call
    obtain ⟨hraised,hsent,hbroken⟩ := ih x (hp.2 x).1 hnext
    refine ⟨hraised,?_,?_⟩
    · intro q y hy
      rcases List.mem_cons.mp hy with hy | hy
      · exact hp.1 q (congrArg Sigma.fst hy).symm
      · exact hsent q y hy
    · rintro ⟨y,hy,hbad⟩
      rcases List.mem_cons.mp hy with rfl | hy
      · exact hnext.fails ((hp.2 x).2 hbad)
      · exact hbroken ⟨y,hy,hbad⟩

theorem silent_receiveJson (F : Formats) (response : HttpResponse) (decode : Json → Option α) :
    Silent (onStore (receiveJson F response decode)) := by
  have hreceive : Silent (onStore (receive response.body)) := by
    refine ⟨fun q hq => (by cases hq),fun x => ?_⟩
    cases x with
    | error e => exact ⟨trivial,fun _ => trivial⟩
    | ok body => exact ⟨trivial,fun ⟨_,_,hx⟩ => (by cases hx)⟩
  rw [receiveJson, onStore_bind]
  refine hreceive.bind fun body => ?_
  rw [onStore_bind]
  refine Silent.bind ?_ fun document => ?_
  · cases body.toJson F <;> trivial
  · cases decode document <;> trivial

/-- How a call goes on with the response to its request. -/
def Settles (response : HttpResponse) (p : BindingUploadM α) : Prop :=
  Silent p ∧ (response.status = 500 → p.Fails) ∨
    response.status = 412 ∧ ∃ e, p = .emit (.errors,1) (.err e)

theorem settles_checked {F : Formats} {response : HttpResponse} {f : HttpResponse → BindingUploadM α}
    (hf : ∀ response, Silent (f response)) :
    Settles response (onStore (checkResponse F response) >>= f) := by
  unfold checkResponse
  split
  next hok =>
    refine .inl ⟨hf response,fun h => ?_⟩
    rw [h] at hok
    cases hok
  next =>
    refine .inl ⟨⟨fun q hq => (by cases hq),fun x => ⟨trivial,fun _ => trivial⟩⟩,fun _ _ => trivial⟩

/-- What the replies to a call say is what its counter says. -/
def Counted (p : BindingUploadM α) : Prop :=
  ∀ tr os r, Returns p tr os r → Judged .errors (Failing tr) (Unseen tr) os r

theorem not_failing_nil : ¬ Failing [] := by
  rintro (⟨q,e,h⟩ | ⟨q,response,h,_⟩)
  · cases h
  · cases h

theorem judged_nil {os : List (Counter × ℕ)} {e : Error} :
    Judged .errors (Failing []) (Unseen []) os (.error e : Except Error α) :=
  ⟨fun h => absurd h not_failing_nil,fun h => absurd h not_failing_nil,
    fun h => absurd h not_failing_nil,fun ⟨_,h⟩ => (by cases h)⟩

theorem counted_err (e : Error) : Counted (.err e : BindingUploadM α) := by
  intro tr os r h
  obtain ⟨rfl,rfl,rfl⟩ := h.of_err
  exact judged_nil

theorem Counted.emit {counter : Counter} (h : counter ≠ .errors) (value : ℕ) {p : BindingUploadM α}
    (hp : Counted p) : Counted (.emit (counter,value) p) := by
  intro tr os r hr
  obtain ⟨os',rfl,hnext⟩ := hr.of_emit
  obtain ⟨h₁,h₂,h₃,h₄⟩ := hp tr os' r hnext
  have hraised := raised_cons_ne _ h value os'
  exact ⟨h₁,fun hf hu => hraised.trans (h₂ hf hu),fun hf hu => hraised.trans (h₃ hf hu),
    fun hok => hraised.trans (h₄ hok)⟩

theorem unseen_sent {q : HttpRequest} {response : HttpResponse} {tr : UploadReplies}
    (hsent : ∀ q x, ⟨.store (.send q),x⟩ ∉ tr) : Unseen (⟨.store (.send q),.ok response⟩ :: tr) ↔
      response.status = 500 ∨
        isSuccess response.status = true ∧ ∃ e, ⟨.store (.receive response.body),.error e⟩ ∈ tr := by
  have hreceived : ∀ body e, (⟨.store (.receive body),.error e⟩ : (d : Demand Exchange) × Supply Answer d) ∈
      ⟨.store (.send q),.ok response⟩ :: tr ↔ ⟨.store (.receive body),.error e⟩ ∈ tr := by
    intro body e
    rw [List.mem_cons]
    exact or_iff_right (fun h => (by cases h))
  constructor
  · rintro ⟨q',response',hmem,h⟩
    rcases List.mem_cons.mp hmem with heq | hmem
    · cases heq
      simpa only [hreceived] using h
    · exact absurd hmem (hsent _ _)
  · intro h
    refine ⟨q,response,List.mem_cons_self,?_⟩
    simpa only [hreceived] using h

theorem failing_sent {q : HttpRequest} {response : HttpResponse} {tr : UploadReplies}
    (hsent : ∀ q x, ⟨.store (.send q),x⟩ ∉ tr)
    (h : Failing (⟨.store (.send q),.ok response⟩ :: tr)) :
    Unseen (⟨.store (.send q),.ok response⟩ :: tr) := by
  rcases h with ⟨q',e,hmem⟩ | h
  · rcases List.mem_cons.mp hmem with heq | hmem
    · cases heq
    · exact absurd hmem (hsent _ _)
  · exact h

/-- The call sends its request and goes on with the response. -/
theorem counted_sent {q : HttpRequest} {f : HttpResponse → BindingUploadM α}
    (hf : ∀ response, Settles response (f response)) : Counted (onStore (send F q) >>= f) := by
  intro tr os r h
  unfold send at h
  split at h
  swap
  · obtain ⟨os',rfl,hnext⟩ := h.of_emit
    obtain ⟨rfl,rfl,rfl⟩ := hnext.of_err
    exact judged_nil
  obtain ⟨x,tr',rfl,hnext⟩ := h.of_call
  rcases x with e | response
  · obtain ⟨os',rfl,hend⟩ := hnext.of_emit
    obtain ⟨rfl,rfl,rfl⟩ := hend.of_err
    have hseen : ¬ Unseen [⟨.store (.send q),.error e⟩] := by
      rintro ⟨q',response,hmem,_⟩
      cases List.mem_singleton.mp hmem
    exact ⟨fun _ => ⟨_,rfl⟩,fun _ _ => rfl,fun _ hu => absurd hu hseen,fun ⟨_,hok⟩ => (by cases hok)⟩
  have hrest : Returns (f response) tr' os r := hnext
  rcases hf response with ⟨hsilent,hcrash⟩ | ⟨hstatus,e,he⟩
  · obtain ⟨hraised,hsent,hbroken⟩ := hsilent.returns hrest
    refine ⟨fun hf => ?_,fun hf hu => absurd (failing_sent hsent hf) hu,fun _ _ => hraised,fun _ => hraised⟩
    rcases (unseen_sent hsent).mp (failing_sent hsent hf) with hstatus | ⟨_,e,hmem⟩
    · exact hrest.fails (hcrash hstatus)
    · exact hbroken ⟨_,hmem,_,e,rfl⟩
  · rw [he] at hrest
    obtain ⟨os',rfl,hend⟩ := hrest.of_emit
    obtain ⟨rfl,rfl,rfl⟩ := hend.of_err
    have hnone : ¬ Failing [⟨.store (.send q),.ok response⟩] := by
      intro hf
      have hunseen := (unseen_sent (by simp)).mp (failing_sent (by simp) hf)
      rw [hstatus] at hunseen
      rcases hunseen with h | ⟨h,_⟩
      · cases h
      · cases h
    exact ⟨fun h => absurd h hnone,fun h => absurd h hnone,fun h => absurd h hnone,fun ⟨_,hok⟩ => (by cases hok)⟩

theorem Counted.then_pure {p : BindingUploadM α} (hp : Counted p) (b : β) :
    Counted (p >>= fun _ => .ok b) := by
  intro tr os r h
  rcases h.of_bind with ⟨e,rfl,he⟩ | ⟨a,tr',tr'',os',os'',rfl,rfl,ha,hend⟩
  · exact (hp tr os _ he).map (f := fun _ => b)
  · obtain ⟨rfl,rfl,rfl⟩ := hend.of_ok
    rw [List.append_nil, List.append_nil]
    exact (hp tr' os' _ ha).map (f := fun _ => b)

theorem Counted.parts {k : Supply Answer .parts → BindingUploadM α} (hk : ∀ x, Counted (k x)) :
    Counted (.call .parts k) := by
  intro tr os r h
  obtain ⟨x,tr',rfl,hnext⟩ := h.of_call
  have hmem : ∀ q y, (⟨.store q,y⟩ : (d : Demand Exchange) × Supply Answer d) ∈ ⟨.parts,x⟩ :: tr' ↔
      ⟨.store q,y⟩ ∈ tr' := by
    intro q y
    rw [List.mem_cons]
    exact or_iff_right (fun h => (by cases h))
  have hunseen : Unseen (⟨.parts,x⟩ :: tr') ↔ Unseen tr' := by
    simp only [Unseen, hmem]
  have hfailing : Failing (⟨.parts,x⟩ :: tr') ↔ Failing tr' := by
    simp only [Failing, hunseen, hmem]
  rw [hfailing, hunseen]
  exact hk x tr' os r hnext

theorem counted_checked {F : Formats} {q : HttpRequest} {f : HttpResponse → BindingM α}
    (hf : ∀ response, Silent (onStore (f response))) :
    Counted (onStore (send F q >>= fun response => checkResponse F response >>= f)) := by
  rw [onStore_bind]
  refine counted_sent fun response => ?_
  rw [onStore_bind]
  exact settles_checked hf

variable (F : Formats) (lib : Crate)

theorem putOpts_counted (location : Path) (payload : List Bytes) (mode : PutMode) :
    Counted (onStore (putOpts F location payload mode)) := by
  refine Counted.emit (by decide) 1 ?_
  cases hq : putRequest location mode with
  | error e => exact counted_err e
  | ok q =>
    have hsent : Counted (onStore (send F { q with body := .bytes payload.flatten }) >>= fun response =>
        onStore (if response.status = 412 then do
          increment .errors 1
          .err (failedPutPrecondition location mode)
        else do
          let response ← checkResponse F response
          increment .writtenBytes payload.flatten.length
          Prog.orElse (putResult response) .err)) := by
      refine counted_sent fun response => ?_
      split
      next hstatus => exact .inr ⟨hstatus,_,rfl⟩
      next =>
        rw [onStore_bind]
        refine settles_checked fun response => ⟨nofun,?_⟩
        cases putResult response <;> trivial
    rw [← onStore_bind] at hsent
    exact hsent

theorem getOpts_counted (location : Path) (options : GetOptions) :
    Counted (onStore (getOpts F lib location options)) := by
  refine Counted.emit (by cases options.head <;> decide) 1 ?_
  change Counted (onStore (if options.version.isSome then _ else _))
  split
  · exact counted_err _
  cases hheaders : readHeaders F lib options with
  | error e => exact counted_err e
  | ok headers =>
    simp only [Prog.orElse_ok, Prog.ok_bind, onStore_bind]
    refine counted_sent fun response => ?_
    cases hrefused : readRefused location response.status with
    | some e =>
      refine .inl ⟨trivial,fun hstatus => trivial⟩
    | none =>
      simp only [onStore_bind]
      refine settles_checked fun response => ?_
      refine Silent.bind (by cases objectMeta F location response <;> trivial) fun metadata => ?_
      refine Silent.bind (by cases lib.checkPreconditions options metadata <;> trivial) fun _ => ?_
      exact Silent.bind (by cases returnedRange lib options.range metadata.size <;> trivial) fun _ => trivial

theorem listPage_counted (keyPrefix cursor delimiter : Option String) :
    Counted (onStore (listPage F keyPrefix cursor delimiter)) :=
  .emit (by decide) 1 (counted_checked fun response => silent_receiveJson F response _)

theorem delete_counted (location : Path) : Counted (onStore (BindingStore.delete F location)) :=
  .emit (by decide) 1 (counted_checked fun _ => trivial)

theorem putMultipartOpts_counted (location : Path) : Counted (onStore (putMultipartOpts F location)) := by
  refine Counted.emit (by decide) 1 (counted_checked fun response => ?_)
  rw [onStore_bind]
  exact (silent_receiveJson F response _).bind fun _ => trivial

theorem uploadPart_counted (location : Path) (uploadId : String) (n : ℕ) (data : List Bytes) :
    Counted (uploadPart F location uploadId n data) := by
  unfold uploadPart sendPart
  rw [onStore_bind, Prog.bind_assoc]
  refine counted_sent fun response => ?_
  rw [onStore_bind, Prog.bind_assoc]
  refine settles_checked fun response => Silent.bind ?_ fun part => ?_
  · rw [onStore_bind]
    exact (silent_receiveJson F response _).bind fun part => ⟨nofun,nofun,trivial⟩
  · refine ⟨fun q hq => (by cases hq),fun x => ?_⟩
    cases x with
    | error e => exact ⟨trivial,fun _ => trivial⟩
    | ok u => exact ⟨trivial,fun ⟨_,_,hx⟩ => (by cases hx)⟩

theorem completeUpload_counted (location : Path) (uploadId : String) :
    Counted (completeUpload F location uploadId) := by
  refine Counted.parts fun x => ?_
  cases x with
  | error e => exact counted_err _
  | ok parts => exact counted_checked fun response => ⟨nofun,by cases putResult response <;> trivial⟩

theorem abortUpload_counted (location : Path) (uploadId : String) :
    Counted (abortUpload F location uploadId) :=
  counted_checked fun _ => trivial

end

theorem run_counted (F : Formats) (lib : Crate) (call : AdapterCall) : Counted (run F lib call) := by
  have hstore : ∀ {α : Type} {p : BindingM α}, Counted (onStore p) →
      Counted (onStore (p >>= fun _ => pure ())) := by
    intro α p hp
    rw [onStore_bind]
    exact hp.then_pure ()
  cases call with
  | put location payload mode => exact hstore (putOpts_counted F location payload mode)
  | get location options => exact hstore (getOpts_counted F lib location options)
  | listPage keyPrefix cursor delimiter => exact hstore (listPage_counted F keyPrefix cursor delimiter)
  | delete location => exact hstore (delete_counted F location)
  | start location => exact hstore (putMultipartOpts_counted F location)
  | putPart h data =>
    simp only [run, Adapter.putPart]
    split
    · exact counted_err _
    · split
      · exact counted_err _
      · exact uploadPart_counted F _ _ _ data
  | complete h =>
    simp only [run, Adapter.complete]
    split
    · exact counted_err _
    · exact (completeUpload_counted F _ _).then_pure ()
  | abort h =>
    simp only [run, Adapter.abort]
    split
    · exact counted_err _
    · exact abortUpload_counted F _ _

end BindingStore

/-- In every session, each failure of R2 raises `r2Errors` by one and no success raises it,
exactly if none of the failures is of a kind that the adapter does not count. -/
theorem failures_counted_iff (E : PathEncoding) (F : Formats) (lib : Crate) :
    (∀ {m n : ℕ} {es : List (Entry AdapterCall (Supply R2.Reply) Error Unit)},
      Session (R2Store.run E lib) .r2Errors m es n →
        (CountsFailures (fun e => ∃ x ∈ e.replies, R2Store.Failing x) es ↔
          ∀ e ∈ es, ¬ ∃ x ∈ e.replies, R2Store.Unseen e.call x)) ∧
      ∀ {m n : ℕ} {es : List (Entry AdapterCall (Supply BindingStore.Answer) Error Unit)},
        Session (BindingStore.run F lib) .errors m es n →
          (CountsFailures (fun e => BindingStore.Failing e.replies) es ↔
            ∀ e ∈ es, ¬ BindingStore.Unseen e.replies) := by
  constructor
  · intro m n es h
    exact h.countsFailures_iff (fun call tr ⟨x,hx,hunseen⟩ => ⟨x,hx,hunseen.failing⟩)
      fun call => R2Store.run_tallied E lib call
  · intro m n es h
    exact h.countsFailures_iff (fun call tr => .inr) fun call => BindingStore.run_counted F lib call

/-- Starting an upload of `a`, which R2 refuses to do. -/
def R2Store.refusedStart : List ((d : Demand R2.Request) × Supply R2.Reply d) :=
  [⟨.store .bucket,.ok ()⟩,⟨.store (.createMultipartUpload "a"),.error "internal error"⟩]

def BindingStore.refusedStart : BindingStore.UploadReplies :=
  [⟨.store (.send (withHeader (request .post ⟨"a",by decide⟩) "x-slate-operation" "multipart-start")),
      .ok ⟨500,[],.text "internal error"⟩⟩,
    ⟨.store (.receive (.text "internal error")),.ok (.text "internal error")⟩]

theorem refusedStart_uncounted :
    ¬ (∀ m n es, Session (R2Store.run .standard .standard) .r2Errors m es n →
        CountsFailures (fun e => ∃ x ∈ e.replies, R2Store.Failing x) es) ∧
      ¬ ∀ m n es, Session (BindingStore.run .plain .standard) .errors m es n →
        CountsFailures (fun e => BindingStore.Failing e.replies) es := by
  constructor
  · intro h
    have hreturns : Returns (R2Store.run .standard .standard (.start ⟨"a",by decide⟩))
        R2Store.refusedStart [(.r2MultipartUploads,1)] (.error (R2Store.generic "internal error")) :=
      .emit (.call (.call (.refl _)))
    have hcounts := h 0 0 _ ((Session.nil 0).snoc hreturns) _ (List.mem_singleton_self _)
    have hfailing : ∃ x ∈ R2Store.refusedStart, R2Store.Failing x :=
      ⟨_,List.mem_cons_of_mem _ List.mem_cons_self,nofun,_,rfl⟩
    exact absurd (hcounts.1 hfailing) (by decide)
  · intro h
    have hreturns : Returns (BindingStore.run .plain .standard (.start ⟨"a",by decide⟩))
        BindingStore.refusedStart [(.multipartUploads,1)]
        (.error (BindingStore.generic ("R2 binding bridge returned 500 Internal Server Error: " ++
          "internal error"))) :=
      .emit (.call (.call (.refl _)))
    have hcounts := h 0 0 _ ((Session.nil 0).snoc hreturns) _ (List.mem_singleton_self _)
    have hfailing : BindingStore.Failing BindingStore.refusedStart :=
      .inr ⟨_,_,List.mem_cons_self,.inl rfl⟩
    exact absurd (hcounts.1 hfailing) (by decide)

/-- A session of one delete whose failure is counted. -/
theorem failures_counted_delete :
    (∃ e, Session (R2Store.run .standard .standard) .r2Errors 0 [e] 1 ∧
        CountsFailures (fun e => ∃ x ∈ e.replies, R2Store.Failing x) [e]) ∧
      ∃ e, Session (BindingStore.run .plain .standard) .errors 0 [e] 1 ∧
        CountsFailures (fun e => BindingStore.Failing e.replies) [e] := by
  obtain ⟨hr2,hbinding⟩ := failures_counted_iff .standard .plain .standard
  constructor
  · have hreturns : Returns (R2Store.run .standard .standard (.delete ⟨"a",by decide⟩))
        [⟨.store .bucket,.ok ()⟩,⟨.store (.delete "a"),.error "internal error"⟩]
        [(.r2Deletes,1),(.r2Errors,1)] (.error (R2Store.generic "internal error")) :=
      .emit (.call (.call (.emit (.refl _))))
    have hsession := (Session.nil (c := .r2Errors) 0).snoc hreturns
    refine ⟨_,hsession,(hr2 hsession).mpr ?_⟩
    intro e he
    rw [List.mem_singleton.mp he]
    simp [R2Store.Unseen]
  · have hreturns : Returns (BindingStore.run .plain .standard (.delete ⟨"a",by decide⟩))
        [⟨.store (.send (BindingStore.request .delete ⟨"a",by decide⟩)),.error "connection refused"⟩]
        [(.deletes,1),(.errors,1)] (.error (BindingStore.generic "connection refused")) :=
      .emit (.call (.emit (.refl _)))
    have hsession := (Session.nil (c := .errors) 0).snoc hreturns
    refine ⟨_,hsession,(hbinding hsession).mpr ?_⟩
    intro e he
    rw [List.mem_singleton.mp he]
    rintro ⟨q,response,hmem,_⟩
    cases List.mem_singleton.mp hmem

end SlatedbCloudflare
