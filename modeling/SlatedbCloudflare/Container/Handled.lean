import SlatedbCloudflare.Container.Bridge

/-! # What the bridge does with one request

Each operation of `handleR2` is decided by one call on the bucket: its response
encodes the reply to that call.
-/
namespace SlatedbCloudflare.Bridge
open Programs ObjectStore R2 Http

section
variable {F : Formats} {S : State → (r : R2.Request) → R2.Reply r → State → Prop} {s t : State}
  {request : HttpRequest} {response : HttpResponse} {key : String}

/-- A reply of the bucket, or the exception it throws, as a response. -/
def encoded {α : Type} (encode : α → HttpResponse) : Except String α → HttpResponse
  | .ok v => encode v
  | .error error => textResponse 500 error

def caught (error : String) : WorkerM HttpResponse := do
  Prog.tell ("R2 bridge failed " ++ error)
  pure (textResponse 500 error)

/-- The shape of an operation: one call, and the encoding of its value. -/
def once (r : R2.Request) (encode : Value r → HttpResponse) : WorkerM HttpResponse :=
  (call r >>= fun v => pure (encode v)).recover caught

theorem once_returns (r : R2.Request) (encode : Value r → HttpResponse) (x : R2.Reply r) :
    ∃ os, Returns (once r encode) [⟨r,x⟩] os (.ok (encoded encode x)) := by
  cases x with
  | ok v => exact ⟨[],.call (.refl _)⟩
  | error e => exact ⟨["R2 bridge failed " ++ e],.call (.emit (.refl _))⟩

theorem of_once {r : R2.Request} {encode : Value r → HttpResponse} {tr : List ((r : R2.Request) × R2.Reply r)}
    {os : List String} {result : Except String HttpResponse} (h : Returns (once r encode) tr os result) :
    ∃ x, tr = [⟨r,x⟩] ∧ result = .ok (encoded encode x) := by
  obtain ⟨x,tail,rfl,hnext⟩ := h.of_call
  obtain ⟨os',hreturns⟩ := once_returns r encode x
  obtain ⟨htr,_,hresult⟩ := h.deterministic hreturns (List.prefix_refl _) (by simp)
  exact ⟨x,htr,hresult⟩

theorem exec_call {r : R2.Request} {encode : Value r → HttpResponse}
    (h : Exec S s (once r encode) (.ok response) t) : ∃ x, S s r x t ∧ response = encoded encode x := by
  obtain ⟨x,u,hs,h⟩ := h.of_call
  cases x with
  | ok v =>
    obtain ⟨hr,rfl⟩ := h.of_ok
    cases hr
    exact ⟨_,hs,rfl⟩
  | error e =>
    obtain ⟨hr,rfl⟩ := h.of_emit.of_ok
    cases hr
    exact ⟨_,hs,rfl⟩

theorem exec_once {r : R2.Request} (encode : Value r → HttpResponse) {x : R2.Reply r} (h : S s r x t) :
    Exec S s (once r encode) (.ok (encoded encode x)) t := by
  cases x with
  | ok v => exact .call h (.ok t _)
  | error e => exact .call h (.emit (.ok t _))

theorem handleR2_list (ho : request.header "x-slate-operation" = some "list") :
    handleR2 F request = once (.list (request.query.lookup "prefix") (request.query.lookup "cursor")
      (request.query.lookup "delimiter")) (fun v => jsonResponse (listedPage F v)) := by
  unfold handleR2 dispatch
  simp only [ho, Option.getD_some, ↓reduceIte]
  rfl

theorem handled_list (ho : request.header "x-slate-operation" = some "list")
    (h : Exec S s (handleR2 F request) (.ok response) t) :
    ∃ p c d, ∃ x : R2.Reply (.list p c d), S s (.list p c d) x t ∧
      response = encoded (fun v => jsonResponse (listedPage F v)) x := by
  rw [handleR2_list ho] at h
  exact ⟨_,_,_,exec_call h⟩

theorem handled_pathless {error : String} (operation : String)
    (ho : (request.header "x-slate-operation").getD "object" = operation) (hlist : operation ≠ "list")
    (hp : objectPath request = .error error)
    (h : Exec S s (handleR2 F request) (.ok response) t) :
    response = textResponse 500 error ∧ t = s := by
  unfold handleR2 dispatch at h
  simp only [ho, if_neg hlist, hp, Prog.orElse_error, Prog.err_bind, Prog.recover_err] at h
  obtain ⟨hr,rfl⟩ := h.of_emit.of_ok
  cases hr
  exact ⟨rfl,rfl⟩

section Named
variable (hp : objectPath request = .ok key)
include hp

theorem handleR2_put (hm : request.method = .put) (ho : request.header "x-slate-operation" = none) :
    handleR2 F request = once (.put key (request.body.arrayBuffer F) (.headers request.headers)) (putResponse F) := by
  unfold handleR2 dispatch
  simp only [ho, hp, hm, Option.getD_none, String.reduceEq, ↓reduceIte, Prog.orElse_ok, Prog.ok_bind]
  rfl

theorem handled_put (hm : request.method = .put) (ho : request.header "x-slate-operation" = none)
    (h : Exec S s (handleR2 F request) (.ok response) t) :
    ∃ x, S s (.put key (request.body.arrayBuffer F) (.headers request.headers)) x t ∧
      response = encoded (putResponse F) x := by
  rw [handleR2_put hp hm ho] at h
  exact exec_call h

theorem handleR2_head (hm : request.method = .head) (ho : request.header "x-slate-operation" = none) :
    handleR2 F request = once (.head key) (headResponse F) := by
  unfold handleR2 dispatch
  simp only [ho, hp, hm, Option.getD_none, String.reduceEq, ↓reduceIte, Prog.orElse_ok, Prog.ok_bind]
  rfl

theorem handled_head (hm : request.method = .head) (ho : request.header "x-slate-operation" = none)
    (h : Exec S s (handleR2 F request) (.ok response) t) :
    ∃ x, S s (.head key) x t ∧ response = encoded (headResponse F) x := by
  rw [handleR2_head hp hm ho] at h
  exact exec_call h

theorem handleR2_get (hm : request.method = .get) (ho : request.header "x-slate-operation" = none) :
    handleR2 F request = once (.get key (.headers request.headers) (.headers request.headers)) (getResponse F request) := by
  unfold handleR2 dispatch
  simp only [ho, hp, hm, Option.getD_none, String.reduceEq, ↓reduceIte, Prog.orElse_ok, Prog.ok_bind]
  rfl

theorem handled_get (hm : request.method = .get) (ho : request.header "x-slate-operation" = none)
    (h : Exec S s (handleR2 F request) (.ok response) t) :
    ∃ x, S s (.get key (.headers request.headers) (.headers request.headers)) x t ∧
      response = encoded (getResponse F request) x := by
  rw [handleR2_get hp hm ho] at h
  exact exec_call h

theorem handleR2_delete (hm : request.method = .delete)
    (ho : request.header "x-slate-operation" = none) :
    handleR2 F request = once (.delete key) (fun _ => emptyResponse 204) := by
  unfold handleR2 dispatch
  simp only [ho, hp, hm, Option.getD_none, String.reduceEq, ↓reduceIte, Prog.orElse_ok, Prog.ok_bind]
  rfl

theorem handled_complete (ho : request.header "x-slate-operation" = some "multipart-complete")
    (h : Exec S s (handleR2 F request) (.ok response) t) (hs : response.status < 300) :
    ∃ id parts u, ∃ object : Object, uploadId request = some id ∧
      (request.body.toJson F).toOption.bind multipartParts = some parts ∧
      S s (.resumeMultipartUpload key id) (.ok ()) u ∧
      S u (.completeMultipartUpload key id parts) (.ok object) t ∧
      response = objectResponse F object := by
  unfold handleR2 dispatch at h
  simp only [ho, hp, Option.getD_some, String.reduceEq, ↓reduceIte, Prog.orElse_ok, Prog.ok_bind,
    handleComplete] at h
  cases hid : uploadId request with
  | none =>
    simp only [hid] at h
    obtain ⟨hr,_⟩ := h.of_ok
    cases hr
    simp [textResponse] at hs
  | some id =>
    cases hj : request.body.toJson F with
    | error error =>
      simp only [hid, hj, Prog.orElse_error, Prog.err_bind, Prog.recover_err] at h
      obtain ⟨hr,_⟩ := h.of_emit.of_ok
      cases hr
      simp [textResponse] at hs
    | ok document =>
      cases hparts : multipartParts document with
      | none =>
        simp only [hid, hj, hparts, Prog.orElse_ok, Prog.ok_bind, Prog.recover_err] at h
        obtain ⟨hr,_⟩ := h.of_emit.of_ok
        cases hr
        simp [textResponse] at hs
      | some parts =>
        simp only [hid, hj, hparts, Prog.orElse_ok, Prog.ok_bind] at h
        obtain ⟨x,u,hresume,h⟩ := h.of_call
        rcases x with error | _
        · obtain ⟨hr,_⟩ := h.of_emit.of_ok
          cases hr
          simp [textResponse] at hs
        · obtain ⟨y,hcomplete,rfl⟩ := exec_call h
          rcases y with error | object
          · simp [encoded, textResponse] at hs
          · exact ⟨id,parts,u,object,rfl,by simp [Except.toOption, hparts],hresume,hcomplete,rfl⟩

theorem handled_part (ho : request.header "x-slate-operation" = some "multipart-part")
    (h : Exec S s (handleR2 F request) (.ok response) t) (hs : response.status < 300) :
    ∃ id n u, ∃ part : ℕ × String, uploadId request = some id ∧
      F.number (request.header "x-slate-part-number") = some n ∧
      S s (.resumeMultipartUpload key id) (.ok ()) u ∧
      S u (.uploadPart key id n (request.body.arrayBuffer F)) (.ok part) t ∧
      response = jsonResponse (.obj [("partNumber",.num part.1),("etag",.str part.2)]) := by
  unfold handleR2 dispatch at h
  simp only [ho, hp, Option.getD_some, String.reduceEq, ↓reduceIte, Prog.orElse_ok, Prog.ok_bind,
    handlePart] at h
  split at h
  next id n hid hn =>
    obtain ⟨x,u,hresume,h⟩ := h.of_call
    rcases x with error | _
    · obtain ⟨hr,_⟩ := h.of_emit.of_ok
      cases hr
      simp [textResponse] at hs
    · obtain ⟨y,hpart,rfl⟩ := exec_call h
      rcases y with error | part
      · simp [encoded, textResponse] at hs
      · exact ⟨id,n,u,part,hid,hn,hresume,hpart,rfl⟩
  next =>
    obtain ⟨hr,_⟩ := h.of_ok
    cases hr
    simp [textResponse] at hs

end Named

theorem call_asks {P : R2.Request → Prop} {r : R2.Request} (h : P r) : (call r).Asks P :=
  ⟨h,fun x => by cases x <;> trivial⟩

/-- The requests on the bucket that handling a request can make: a listing, or something
about the object it names, and parts only for part requests, with their bodies. -/
inductive Requested (F : Formats) (request : HttpRequest) : R2.Request → Prop
  | list (ho : request.header "x-slate-operation" = some "list") (p c d : Option String) :
      Requested F request (.list p c d)
  | object {key : String} {r : R2.Request} (hp : objectPath request = .ok key)
      (hkey : r.objectKey = some key) (hpart : ∀ key id n bytes, r ≠ .uploadPart key id n bytes) :
      Requested F request r
  | part {key id : String} {n : ℕ} (hp : objectPath request = .ok key)
      (ho : request.header "x-slate-operation" = some "multipart-part")
      (hn : F.number (request.header "x-slate-part-number") = some n) :
      Requested F request (.uploadPart key id n (request.body.arrayBuffer F))

theorem operation_eq {operation : String} (hne : operation ≠ "object")
    (h : (request.header "x-slate-operation").getD "object" = operation) :
    request.header "x-slate-operation" = some operation := by
  cases ho : request.header "x-slate-operation" with
  | none =>
    rw [ho] at h
    exact absurd h.symm hne
  | some value =>
    rw [ho] at h
    exact congrArg some h

theorem handleR2_requests (F : Formats) (request : HttpRequest) :
    (handleR2 F request).Asks (Requested F request) := by
  refine .recover ?_ fun _ => trivial
  unfold dispatch
  simp only
  split
  next hlist => exact (call_asks (.list (operation_eq (by decide) hlist) _ _ _)).bind fun _ => trivial
  cases hp : objectPath request with
  | error e => trivial
  | ok key =>
    simp only [Prog.orElse_ok, Prog.ok_bind]
    split
    · exact (call_asks (.object hp rfl nofun)).bind fun _ => trivial
    split
    next hpart =>
      unfold handlePart
      split
      next id n hid hn =>
        refine (call_asks (.object hp rfl nofun)).bind fun _ => .bind (call_asks ?_) fun _ => trivial
        exact .part hp (operation_eq (by decide) hpart) hn
      next => trivial
    split
    · unfold handleComplete
      split
      · trivial
      · cases request.body.toJson F with
        | error e => trivial
        | ok document =>
          simp only [Prog.orElse_ok, Prog.ok_bind]
          split
          · trivial
          · exact (call_asks (.object hp rfl nofun)).bind fun _ =>
              (call_asks (.object hp rfl nofun)).bind fun _ => trivial
    split
    · unfold handleAbort
      split
      · trivial
      · exact (call_asks (.object hp rfl nofun)).bind fun _ =>
          (call_asks (.object hp rfl nofun)).bind fun _ => trivial
    split
    · exact (call_asks (.object hp rfl nofun)).bind fun _ => trivial
    · exact (call_asks (.object hp rfl nofun)).bind fun _ => trivial
    · exact (call_asks (.object hp rfl nofun)).bind fun _ => trivial
    · exact (call_asks (.object hp rfl nofun)).bind fun _ => trivial
    · trivial

/-- Parts are uploaded for part requests only, with the body of the request. -/
theorem handleR2_asks (F : Formats) (request : HttpRequest) :
    (handleR2 F request).Asks (fun r => ∀ key id n bytes, r = .uploadPart key id n bytes →
      request.header "x-slate-operation" = some "multipart-part" ∧
        F.number (request.header "x-slate-part-number") = some n ∧
        bytes = request.body.arrayBuffer F) := by
  refine (handleR2_requests F request).imp ?_
  rintro r hr key id n bytes rfl
  cases hr with
  | object _ _ hpart => exact absurd rfl (hpart key id n bytes)
  | part _ ho hn => exact ⟨ho,hn,rfl⟩

theorem handleR2_key (hlist : request.header "x-slate-operation" ≠ some "list") :
    (handleR2 F request).Asks (fun r => ∃ k, objectPath request = .ok k ∧ r.objectKey = some k) := by
  refine (handleR2_requests F request).imp ?_
  intro r hr
  cases hr with
  | list ho => exact absurd ho hlist
  | object hk hkey => exact ⟨_,hk,hkey⟩
  | part hk => exact ⟨_,hk,rfl⟩

theorem handleR2_untouched {os : List String}
    (h : Returns (handleR2 F request) [] os (.ok response)) : 300 ≤ response.status := by
  have hcall : ∀ {r : R2.Request} {f : Value r → WorkerM HttpResponse},
      ¬ Returns ((call r >>= f).recover caught) [] os (.ok response) := by
    intro r f h
    obtain ⟨x,tr,htr,_⟩ := h.of_call
    cases htr
  have hcaught : ∀ {e : String}, Returns (caught e) [] os (.ok response) → 300 ≤ response.status := by
    intro e h
    obtain ⟨_,_,h⟩ := h.of_emit
    obtain ⟨_,_,h⟩ := h.of_ok
    cases h
    simp [textResponse]
  have hrefused : ∀ {status : ℕ} {text : String}, 300 ≤ status →
      Returns (.ok (textResponse status text) : WorkerM HttpResponse) [] os (.ok response) →
      300 ≤ response.status := by
    intro status text hs h
    obtain ⟨_,_,h⟩ := h.of_ok
    cases h
    exact hs
  unfold handleR2 dispatch at h
  simp only at h
  split at h
  · exact absurd h hcall
  cases hp : objectPath request with
  | error e =>
    rw [hp] at h
    exact hcaught h
  | ok key =>
    simp only [hp, Prog.orElse_ok, Prog.ok_bind] at h
    split at h
    · exact absurd h hcall
    split at h
    · unfold handlePart at h
      split at h
      · exact absurd h hcall
      · exact hrefused (by decide) h
    split at h
    · unfold handleComplete at h
      split at h
      · exact hrefused (by decide) h
      · cases hj : request.body.toJson F with
        | error e =>
          rw [hj] at h
          exact hcaught h
        | ok document =>
          simp only [hj, Prog.orElse_ok, Prog.ok_bind] at h
          split at h
          · exact hcaught h
          · exact absurd h hcall
    split at h
    · unfold handleAbort at h
      split at h
      · exact hrefused (by decide) h
      · exact absurd h hcall
    split at h
    · exact absurd h hcall
    · exact absurd h hcall
    · exact absurd h hcall
    · exact absurd h hcall
    · exact hrefused (by decide) h

end

end SlatedbCloudflare.Bridge
