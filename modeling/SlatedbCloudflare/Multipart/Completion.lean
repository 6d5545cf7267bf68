import SlatedbCloudflare.Platform.Effects
import SlatedbCloudflare.Multipart.Assembly
import SlatedbCloudflare.DurableObject.Multipart
import SlatedbCloudflare.Container.Multipart
import SlatedbCloudflare.Container.Network

/-! # Completed uploads of both adapters

Both handles transfer parts in the way `complete_assembles` asks for, so a
completed object consists of the recorded parts. Nothing checks that every
numbered part was recorded.
-/
namespace SlatedbCloudflare
open Programs Messages Traversals ObjectStore R2 Http Multipart

namespace R2Store
open Perf

theorem collectPayload_eq (payload : List Bytes) : collectPayload payload = payload.flatten := by
  have hfold : ∀ bytes : Bytes, payload.foldl (fun bytes chunk => bytes ++ chunk) bytes =
      bytes ++ payload.flatten := by
    induction payload with
    | nil => simp
    | cons chunk payload ih => simp [ih]
  exact hfold []

theorem sendPart_returns {location : Path} {uploadId : String} {n : ℕ} {data : List Bytes}
    {tr : List ((r : Request) × Reply r)} {os : List Increment} {part : ℕ × String}
    (h : Returns (sendPart location uploadId n data) tr os (.ok part)) :
    ∃ x, tr = [⟨.bucket,.ok ()⟩,x,
      ⟨.uploadPart (key location) uploadId n (collectPayload data),.ok part⟩] := by
  obtain ⟨_,tr₁,tr₂,_,_,rfl,_,hbucket,h₁⟩ := h.of_bind_ok
  obtain ⟨_,tr₃,tr₄,_,_,rfl,_,hresume,h₂⟩ := h₁.of_bind_ok
  obtain ⟨part',tr₅,tr₆,_,_,rfl,_,hpart,h₃⟩ := h₂.of_bind_ok
  obtain ⟨_,_,h₄⟩ := h₃.of_emit
  obtain ⟨_,_,h₅⟩ := h₄.of_emit
  obtain ⟨rfl,_,hv⟩ := h₅.of_ok
  cases hv
  rw [bucket_returns hbucket, r2_returns hresume, r2_returns hpart]
  exact ⟨_,rfl⟩

theorem sendComplete_returns {location : Path} {uploadId : String} {parts : List (ℕ × String)}
    {tr : List ((r : Request) × Reply r)} {os : List Increment} {result : PutResult}
    (h : Returns (sendComplete location uploadId parts) tr os (.ok result)) :
    ∃ object : Object, tr = [⟨.completeMultipartUpload (key location) uploadId parts,.ok object⟩] := by
  obtain ⟨object,tr₁,tr₂,_,_,rfl,_,hcomplete,h₁⟩ := h.of_bind_ok
  obtain ⟨_,_,h₂⟩ := h₁.of_emit
  rw [h₂.of_ok.1, r2_returns hcomplete]
  exact ⟨object,rfl⟩

/-- R2 keeps the parts unless another payload is uploaded under a number. -/
theorem binding_keeps {R : Rules} {content : ℕ → Bytes} {uploadId : String} {r : Request}
    (hr : ∀ key id n bytes, r = .uploadPart key id n bytes → bytes = content n) :
    Keeps (binding R) content uploadId r :=
  fun _ _ _ hserve hparts => hparts.serve hserve hr

theorem multipartUpload_transfers (R : Rules) (location : Path) (uploadId : String) :
    multipartUpload.Transfers (binding R) location uploadId (key location) uploadId 3 where
  upload n data content hcontent := by
    have hstore : (sendPart location uploadId n data).Asks (Keeps (binding R) content uploadId) := by
      refine .bind ⟨binding_keeps nofun,fun x => by cases x <;> trivial⟩ fun _ => ?_
      refine .bind ⟨binding_keeps nofun,fun x => by cases x <;> trivial⟩ fun _ => ?_
      refine .bind ⟨binding_keeps ?_,fun x => by cases x <;> trivial⟩ fun _ => trivial
      rintro _ _ _ _ ⟨⟩
      rw [hcontent, collectPayload_eq]
    exact recording_asks hstore
  record n data tr os part k _ h hplausible := by
    obtain ⟨tr',_,rfl,hsend⟩ := recording_consumes h
    obtain ⟨x,rfl⟩ := sendPart_returns hsend
    have hserved : ∃ s t, (binding R).serve s (.uploadPart (key location) uploadId n (collectPayload data)) (.ok part) t :=
      hplausible.served (by simp) (by rintro ⟨_,h⟩; cases h)
    obtain ⟨s,t,hs⟩ := hserved
    obtain ⟨_,_,_,hn,_⟩ := hs.does
    exact ⟨hn,rfl⟩
  finish content := by
    refine .bind (storing_asks ?_) fun _ => ⟨⟨nofun,nofun⟩,fun x => ?_⟩
    · refine .bind ⟨binding_keeps nofun,fun x => by cases x <;> trivial⟩ fun _ => ?_
      exact ⟨binding_keeps nofun,fun x => by cases x <;> trivial⟩
    · cases x with
      | error e => trivial
      | ok parts =>
        refine storing_asks ?_
        exact .bind ⟨binding_keeps nofun,fun x => by cases x <;> trivial⟩ fun _ => trivial
  complete tr os result h := by
    obtain ⟨_,tr₁,tr₂,_,_,rfl,_,_,h₁⟩ := h.of_bind_ok
    obtain ⟨x,tr₃,rfl,h₂⟩ := h₁.of_call
    rcases x with e | parts
    · cases h₂.of_err.2.2
    · obtain ⟨tr₄,rfl,hsend⟩ := onStore_returns h₂
      obtain ⟨object,rfl⟩ := sendComplete_returns hsend
      refine ⟨parts,.completeMultipartUpload (key location) uploadId (sortParts parts),
        .ok object,by simp,by simp [onStoreReplies],?_,?_⟩
      · rintro ⟨_,h⟩
        cases h
      · intro content s t hserve hparts
        exact ⟨object,hparts.complete hserve.does⟩

end R2Store

namespace BindingStore
open Bridge

section
variable {R : Rules} {F : Formats} {s t : State} {location : Path} {handleId : String}

theorem Handles.partsOk {content : ℕ → Bytes} {uploadId : String} {q : Exchange} {x : Answer q}
    (h : Handles (Serve R) F s q x t)
    (hq : ∀ r : HttpRequest, q = .send r →
      (r.deliver F).header "x-slate-operation" = some "multipart-part" →
        ∀ n, F.number ((r.deliver F).header "x-slate-part-number") = some n →
          r.body.arrayBuffer F = content n)
    (hs : PartsOk content uploadId s) : PartsOk content uploadId t := by
  cases h with
  | received => exact hs
  | handled h =>
    refine h.invariant (handleR2_asks F _) (I := PartsOk content uploadId) ?_ hs
    intro s r' x t hr hserve hs
    refine hs.serve hserve fun key id n bytes heq => ?_
    obtain ⟨ho,hn,rfl⟩ := hr key id n bytes heq
    exact hq _ rfl ho n hn

theorem partRequest_header (location : Path) (handleId : String) (n : ℕ) (body : Body) :
    ((partRequest location handleId n body).deliver F).header "x-slate-path" = some (bridgeKey F location) ∧
      ((partRequest location handleId n body).deliver F).header "x-slate-operation" =
        some "multipart-part" ∧
      ((partRequest location handleId n body).deliver F).header "x-slate-upload-id" =
        some (F.arrives handleId) ∧
      ((partRequest location handleId n body).deliver F).header "x-slate-part-number" =
        some (toString n) := by
  have hname : F.arrives "multipart-part" = "multipart-part" := arrives_printable F (by decide)
  have hnumber : F.arrives n.repr = n.repr := arrives_toString F n
  simp [partRequest, HttpRequest.deliver, HttpRequest.header, lookup_received, withHeader, request,
    List.lookup_cons, bridgeKey, hname, hnumber]

theorem completeRequest_header (location : Path) (handleId : String) (body : Body) :
    ((completeRequest location handleId body).deliver F).header "x-slate-path" =
        some (bridgeKey F location) ∧
      ((completeRequest location handleId body).deliver F).header "x-slate-operation" =
        some "multipart-complete" ∧
      ((completeRequest location handleId body).deliver F).header "x-slate-upload-id" =
        some (F.arrives handleId) := by
  have hname : F.arrives "multipart-complete" = "multipart-complete" := arrives_printable F (by decide)
  simp [completeRequest, HttpRequest.deliver, HttpRequest.header, lookup_received, withHeader, request,
    List.lookup_cons, bridgeKey, hname]

/-- A part that the bridge reports as uploaded has the number it was sent under. -/
theorem handles_part {n : ℕ} {body : Body} {response : HttpResponse} {part : ℕ × String}
    (h : Handles (Serve R) F s (.send (partRequest location handleId n body)) (.ok response) t)
    (hs : isSuccess response.status = true) (hpart : ∃ document, response.body.toJson F = .ok document ∧
      multipartPart document = some part) : part.1 = n := by
  obtain ⟨hpath,ho,_,hnumber⟩ := partRequest_header location handleId n body
  cases h with
  | handled h =>
    rcases objectPath_received hpath with ⟨_,e,he⟩ | hkey
    · obtain ⟨rfl,rfl⟩ := handled_pathless _ (by rw [ho]) (by decide) he h
      cases hs
    · obtain ⟨_,n',u,uploaded,_,hn',_,hserve,rfl⟩ := handled_part hkey ho h (success_lt hs)
      rw [hnumber, F.number_toString] at hn'
      cases hn'
      obtain ⟨_,_,_,hn,_⟩ := hserve.does
      obtain ⟨document,hdocument,hdecode⟩ := hpart
      cases hdocument
      simp only [multipartPart, asUnsigned, Json.field, Json.asNum, Json.asStr] at hdecode
      simp [List.lookup_cons, Option.bind_eq_some_iff] at hdecode
      rw [← hn, ← hdecode.2]

theorem multipartParts_partsJson (parts : List (ℕ × String)) :
    multipartParts (partsJson parts) = some parts := by
  simp only [multipartParts, partsJson, Json.asArr, Option.bind_eq_bind, Option.bind_some]
  rw [mapM_option, List.forall₂_map_left_iff]
  induction parts with
  | nil => exact .nil
  | cons part parts ih => exact .cons rfl ih

/-- A successful completion request assembled the parts it lists. -/
theorem handles_complete {content : ℕ → Bytes} {parts : List (ℕ × String)} {response : HttpResponse}
    (h : Handles (Serve R) F s
      (.send (completeRequest location handleId (.json (partsJson parts)))) (.ok response) t)
    (hs : isSuccess response.status = true) (hparts : PartsOk content (F.arrives handleId) s) :
    ∃ object, t.objects (bridgeKey F location) = some object ∧
      object.content = parts.flatMap (fun p => content p.1) := by
  obtain ⟨hpath,ho,hid⟩ := completeRequest_header location handleId
    (.json (partsJson parts))
  cases h with
  | handled h =>
    rcases objectPath_received hpath with ⟨_,e,he⟩ | hkey
    · obtain ⟨rfl,rfl⟩ := handled_pathless _ (by rw [ho]) (by decide) he h
      cases hs
    · obtain ⟨id,listed,u,object,huid,hlisted,hresume,hcomplete,_⟩ :=
        handled_complete hkey ho h (success_lt hs)
      have hidentifier : id = F.arrives handleId := by
        rw [uploadId, hid] at huid
        exact ((Option.filter_eq_some_iff.mp huid).1 |> Option.some.inj).symm
      have hlist : listed = parts := by
        have hdecode : some parts = some listed := by
          rw [← multipartParts_partsJson parts]
          exact hlisted
        exact (Option.some.inj hdecode).symm
      subst hidentifier
      subst hlist
      rw [hresume.read trivial] at hcomplete
      exact ⟨object,hparts.complete hcomplete.does⟩

theorem sendPart_returns {n : ℕ} {data : List Bytes} {tr : List ((q : Exchange) × Answer q)}
    {os : List (Counter × ℕ)} {part : ℕ × String}
    (h : Returns (sendPart F location handleId n data) tr os (.ok part)) :
    ∃ response body, tr = [⟨.send (partRequest location handleId n (.bytes data.flatten)),.ok response⟩,
      ⟨.receive response.body,.ok body⟩] ∧ isSuccess response.status = true ∧
      ∃ document, body.toJson F = .ok document ∧ multipartPart document = some part := by
  obtain ⟨response,tr',os',rfl,h₁⟩ := send_ok h
  obtain ⟨hs,h₂⟩ := checkResponse_ok h₁
  obtain ⟨part',tr₁,tr₂,_,_,rfl,_,hjson,h₃⟩ := h₂.of_bind_ok
  obtain ⟨body,document,rfl,hj,hp⟩ := receiveJson_ok hjson
  obtain ⟨_,_,h₄⟩ := h₃.of_emit
  obtain ⟨_,_,h₅⟩ := h₄.of_emit
  obtain ⟨rfl,_,hr⟩ := h₅.of_ok
  cases hr
  exact ⟨response,body,rfl,hs,document,hj,hp⟩

theorem Handles.partsOk_other {content : ℕ → Bytes} {uploadId operation : String} {r : HttpRequest}
    (ho : (r.deliver F).header "x-slate-operation" = some operation) (hne : operation ≠ "multipart-part")
    {x : Answer (.send r)} (h : Handles (Serve R) F s (.send r) x t)
    (hs : PartsOk content uploadId s) : PartsOk content uploadId t := by
  refine h.partsOk (fun r' hr hpart => ?_) hs
  cases hr
  rw [ho] at hpart
  exact absurd (Option.some.inj hpart) hne

end

theorem keeps_receive {R : Rules} {F : Formats} {content : ℕ → Bytes} {uploadId : String} (body : Body) :
    Keeps (network (Serve R) F) content uploadId (.receive body) := by
  intro s x t hserve hparts
  cases hserve with
  | received => exact hparts

theorem multipartUpload_transfers (R : Rules) (F : Formats) (location : Path) (handleId : String) :
    (multipartUpload F).Transfers (network (Serve R) F) location handleId (bridgeKey F location)
      (F.arrives handleId) 2 where
  upload n data content hcontent := by
    have hbind : (sendPart F location handleId n data).Asks
        (Keeps (network (Serve R) F) content (F.arrives handleId)) := by
      refine .bind (send_asks fun _ => ?_) fun response => .bind (checkResponse_asks (keeps_receive _))
        fun _ => .bind (.bind ⟨keeps_receive _,fun x => by cases x <;> trivial⟩ fun body => ?_)
          fun _ => trivial
      · intro s x t hserve hparts
        refine Handles.partsOk hserve (fun r hr _ m hm => ?_) hparts
        cases hr
        rw [(partRequest_header _ _ n _).2.2.2, F.number_toString] at hm
        cases hm
        exact hcontent.symm
      · cases body.toJson F with
        | error e => trivial
        | ok document =>
          simp only [Prog.orElse_ok, Prog.ok_bind]
          split <;> trivial
    exact recording_asks hbind
  record n data tr os part k _ h hplausible := by
    obtain ⟨tr',_,rfl,hsend⟩ := recording_consumes h
    obtain ⟨response,body,rfl,hs,hdecode⟩ := sendPart_returns hsend
    have hreceived : ∃ s t, (network (Serve R) F).serve s (.receive response.body) (.ok body) t :=
      hplausible.served (by simp) (by rintro ⟨_,h⟩; cases h)
    have hsent : ∃ s t, (network (Serve R) F).serve s
        (.send (partRequest location handleId n (.bytes data.flatten))) (.ok response) t :=
      hplausible.served (by simp) (by rintro ⟨_,h⟩; cases h)
    obtain ⟨_,_,hreceived⟩ := hreceived
    cases hreceived with
    | received =>
      obtain ⟨s,t,h⟩ := hsent
      exact ⟨handles_part h hs hdecode,rfl⟩
  finish content := by
    refine ⟨⟨nofun,nofun⟩,fun x => ?_⟩
    cases x with
    | error e => trivial
    | ok parts =>
      refine storing_asks (.bind (send_asks fun _ => ?_) fun response =>
        .bind (checkResponse_asks (keeps_receive _)) fun checked => ?_)
      · intro s x t hserve hparts
        exact Handles.partsOk_other (completeRequest_header _ _ _).2.1 (by decide) hserve hparts
      · show (Prog.orElse _ _).Asks _
        cases putResult checked <;> exact trivial
  complete tr os result h := by
    obtain ⟨x,tr₁,rfl,h₁⟩ := h.of_call
    rcases x with e | parts
    · cases h₁.of_err.2.2
    · obtain ⟨tr₂,rfl,hsend⟩ := onStore_returns h₁
      obtain ⟨response,rfl,hs,_⟩ := completeParts_returns hsend
      refine ⟨parts,.send (completeRequest location handleId (.json (partsJson (sortParts parts)))),
        .ok response,by simp,by simp [onStoreReplies],?_,?_⟩
      · rintro ⟨_,h⟩
        cases h
      · intro content s t hserve hparts
        exact handles_complete hserve hs hparts

end BindingStore

namespace Multipart
variable {Q : Type} {A : Q → Type} {Out : Type}

/-- On a new upload, with the parts `data` passed to `put_part` and the futures
run in any order as far as they get, a successful `complete` has the effect `E`. -/
def Completes (W : Service State Q A) (M : Adapter A Out) (location : Path)
    (handleId uploadId : String)
    (E : List (Event (Option ℕ) (State × List (ℕ × String)) (Demand Q) (Supply A)) →
      List (List Bytes) → Prop) : Prop :=
  ∀ (data : List (List Bytes)) (s : State) es
    (t : System (Option ℕ) (State × List (ℕ × String)) (Demand Q) (Supply A) Out Error
      (Option PutResult)) (result : PutResult),
    (∀ u, s.uploads uploadId = some u → ∀ n, u.parts n = none) →
      Run (withParts W) (start (s,[]) (M.tasks (.fresh location handleId) data)) es t →
        (t.client none).prog = .ok (some result) → E es data

def StoresAll (key : String)
    (es : List (Event (Option ℕ) (State × List (ℕ × String)) (Demand Q) (Supply A)))
    (data : List (List Bytes)) : Prop :=
  ∃ e ∈ es, e.caller = none ∧ ∃ object, e.after.1.objects key = some object ∧
    object.content = (data.take MAX_MULTIPART_PARTS).flatten.flatten

def Adapter.RefusesBeyond (M : Adapter A Out) (location : Path) (handleId : String) : Prop :=
  ∀ (data : List (List Bytes)) (k : ℕ), MAX_MULTIPART_PARTS ≤ k → k < data.length →
    (M.putParts (.fresh location handleId) data).2[k]? = some (.err (.notSupported M.tooMany))

theorem Adapter.Transfers.completes {W : Service State Q A} {M : Adapter A Out} {location : Path}
    {handleId key uploadId : String} {pushIndex : ℕ}
    (hT : M.Transfers W location handleId key uploadId pushIndex) :
    Completes W M location handleId uploadId (fun es data => Assembles es data key) := by
  intro data s es t result hnew hrun hr
  refine complete_assembles hT hrun ?_ hr
  intro u hu n etag bytes hp
  rw [hnew u hu n] at hp
  cases hp

theorem Adapter.refusesBeyond (M : Adapter A Out) (location : Path) (handleId : String) :
    M.RefusesBeyond location handleId := by
  intro data k hk hlt
  have hlimit : MAX_MULTIPART_PARTS < (Handle.fresh location handleId).nextPart + k :=
    Nat.lt_of_le_of_lt hk (by simp [Handle.fresh])
  rw [putParts_future M rfl k, List.getElem?_eq_getElem hlt]
  simp [hlimit]

end Multipart

/-- On both handles a successful `complete` stores the parts recorded when it reads
the list, and only the first ten thousand calls are given a number. -/
theorem uploads_assemble_recorded (R : Rules) (F : Formats) (location : Path) (uploadId : String) :
    (Completes (binding R) R2Store.multipartUpload location uploadId uploadId
        (fun es data => Assembles es data (R2Store.key location)) ∧
      R2Store.multipartUpload.RefusesBeyond location uploadId) ∧
    (Completes (BindingStore.network (Serve R) F) (BindingStore.multipartUpload F) location uploadId
        (F.arrives uploadId) (fun es data => Assembles es data (BindingStore.bridgeKey F location)) ∧
      (BindingStore.multipartUpload F).RefusesBeyond location uploadId) :=
  ⟨⟨(R2Store.multipartUpload_transfers R location uploadId).completes,Adapter.refusesBeyond _ _ _⟩,
    ⟨(BindingStore.multipartUpload_transfers R F location uploadId).completes,
      Adapter.refusesBeyond _ _ _⟩⟩

/-- Two parts of one byte, of which the second is never uploaded. -/
theorem complete_omits_unrecorded_part : ¬ Completes (binding Rules.standard)
    R2Store.multipartUpload ⟨"sst/1",by decide⟩ "u" "u" (StoresAll "sst/1") := by
  intro hlaw
  let location : Path := ⟨"sst/1",by decide⟩
  let tag : ETag := ⟨"t",by decide⟩
  let object : Object := ⟨"sst/1","1",tag,0,[1]⟩
  let fresh : Upload := ⟨"sst/1",fun _ => none⟩
  let uploaded : Upload := ⟨"sst/1",Function.update (fun _ => none) 1 (some ("t",[1]))⟩
  let s : State := ⟨fun _ => none,fun _ => some fresh⟩
  let u : State := s.setUpload "u" (some uploaded)
  let v : State := (u.store object).setUpload "u" none
  let S : System (Option ℕ) (State × List (ℕ × String)) (Demand Request) (Supply Reply) Perf.Increment
      Error (Option PutResult) :=
    start (s,[]) (R2Store.multipartUpload.tasks (.fresh location "u") [[[1]],[[2]]])
  have hserve : ∀ {s t : State} {r : Request} {v : Value r} (l : List (ℕ × String)),
      Does Rules.standard s r v t → (withParts (binding Rules.standard)).serve (s,l) (.store r)
        (.ok v) (t,l) := by
    intro s t r v l h
    exact PartsServe.store (Serve.served h) l
  have hfirst : Alone (withParts (binding Rules.standard)) (some 0) (s,[]) 0
      (S.client (some 0)).prog
      [⟨some 0,0,.store .bucket,.ok (),(s,[]),(s,[])⟩,
        ⟨some 0,1,.store (.resumeMultipartUpload "sst/1" "u"),.ok (),(s,[]),(s,[])⟩,
        ⟨some 0,2,.store (.uploadPart "sst/1" "u" 1 [1]),.ok (1,"t"),(s,[]),(u,[])⟩,
        ⟨some 0,3,.push (1,"t"),.ok (),(u,[]),(u,[(1,"t")])⟩]
      (u,[(1,"t")]) 4 (.ok none) := by
    refine .call (hserve [] rfl) (.call (hserve [] rfl) (.call (hserve [] ⟨fresh,rfl,rfl,rfl,rfl⟩) ?_))
    exact .emit (.emit (.call (.push u [] (1,"t")) (.refl _ _ _)))
  have hsecond : Alone (withParts (binding Rules.standard)) (none : Option ℕ)
      (u,[(1,"t")]) 0
      (S.client none).prog
      [⟨none,0,.store .bucket,.ok (),(u,[(1,"t")]),(u,[(1,"t")])⟩,
        ⟨none,1,.store (.resumeMultipartUpload "sst/1" "u"),.ok (),(u,[(1,"t")]),(u,[(1,"t")])⟩,
        ⟨none,2,.parts,.ok [(1,"t")],(u,[(1,"t")]),(u,[(1,"t")])⟩,
        ⟨none,3,.store (.completeMultipartUpload "sst/1" "u" [(1,"t")]),.ok object,(u,[(1,"t")]),
          (v,[(1,"t")])⟩]
      (v,[(1,"t")]) 4 (.ok (some ⟨some "t",some "1"⟩)) := by
    have hsorted : sortParts [(1,"t")] = [(1,"t")] := by simp [sortParts]
    refine .call (hserve _ rfl) (.call (hserve _ rfl) (.call (.parts u _) ?_))
    show Alone _ _ _ 3 (onStore (R2Store.sendComplete location "u" (sortParts [(1,"t")])) >>=
      fun result => pure (some result)) _ _ _ _
    rw [hsorted]
    exact .call (hserve _ ⟨uploaded,rfl,rfl,rfl,rfl,rfl⟩) (.emit (.refl _ _ _))
  obtain ⟨T₁,hT₁,hservice,_,hframe⟩ := hfirst.run S rfl rfl
  obtain ⟨T₂,hT₂,_,hcompleted,_⟩ := hsecond.run T₁ hservice (hframe none nofun)
  obtain ⟨e,he,hcaller,stored,hstored,hcontent⟩ := hlaw _ s _ T₂ ⟨some "t",some "1"⟩
    (fun w hw n => by cases hw; rfl) (hT₁.trans hT₂) (by rw [hcompleted])
  have hnone : u.objects "sst/1" = none := rfl
  have hone : v.objects "sst/1" = some object := rfl
  simp only [List.cons_append, List.nil_append, List.mem_cons, List.not_mem_nil, or_false] at he
  rcases he with rfl | rfl | rfl | rfl | rfl | rfl | rfl | rfl
  · cases hcaller
  · cases hcaller
  · cases hcaller
  · cases hcaller
  · cases hnone.symm.trans hstored
  · cases hnone.symm.trans hstored
  · cases hnone.symm.trans hstored
  · cases hone.symm.trans hstored
    exact absurd hcontent (by decide)

end SlatedbCloudflare
