import SlatedbCloudflare.Multipart.Finishing
import SlatedbCloudflare.DurableObject.Multipart
import SlatedbCloudflare.Container.Client
import SlatedbCloudflare.Container.Multipart

/-! # Refused calls in both adapters

The replies under which `complete` and `abort` succeed, and with them the exact
condition under which a failed call strands no upload.
-/
namespace SlatedbCloudflare
open Programs ObjectStore R2 Http Multipart

namespace R2Store
open Perf

/-- The binding, or the mutex, did not fail. -/
def Succeeded : (d : Demand Request) × Supply Reply d → Prop
  | ⟨.store _,x⟩ => ∃ v, x = .ok v
  | ⟨.push _,x⟩ => ∃ v, x = .ok v
  | ⟨.parts,x⟩ => ∃ v, x = .ok v

abbrev StoreSucceeded (x : (r : Request) × Reply r) : Prop := Succeeded ⟨.store x.1,x.2⟩

theorem r2_strict (r : Request) : (r2 r).Strict StoreSucceeded :=
  Prog.Strict.of_orElse (f := r2Failed) (fun x : Reply r => x) (fun _ => Iff.rfl) fun _ => trivial

theorem bucket_strict : bucket.Strict StoreSucceeded :=
  Prog.Strict.of_orElse (r := Request.bucket) (f := fun error => .err (generic error))
    (fun x : Reply .bucket => x) (fun _ => Iff.rfl) fun _ => trivial

theorem resume_strict (key uploadId : String) : (resume key uploadId).Strict StoreSucceeded :=
  Prog.Strict.of_orElse (r := Request.resumeMultipartUpload key uploadId) (f := fun error => .err (generic error))
    (fun x : Reply (.resumeMultipartUpload key uploadId) => x) (fun _ => Iff.rfl) fun _ => trivial

theorem completeUpload_strict (location : Path) (uploadId : String) :
    (completeUpload location uploadId).Strict Succeeded := by
  refine .bind (onStore_strict (bucket_strict.bind fun _ => resume_strict _ _)) fun _ x => ?_
  cases x with
  | error e =>
    refine ⟨?_,fun _ => trivial⟩
    rintro ⟨_,h⟩
    cases h
  | ok parts =>
    exact ⟨fun _ => onStore_strict ((r2_strict _).bind fun _ => trivial),fun h => absurd ⟨parts,rfl⟩ h⟩

theorem abortUpload_strict (location : Path) (uploadId : String) :
    (abortUpload location uploadId).Strict Succeeded :=
  onStore_strict (bucket_strict.bind fun _ => (resume_strict _ _).bind fun _ => r2_strict _)

def CleanReplies (_ : Path) (_ : String) (_ : Call) (tr : Replies Reply) : Prop :=
  ∀ x ∈ tr, Succeeded x

theorem r2_errs {P : Error → Prop} (h : ∀ e, P (generic e)) (r : Request) : (r2 r).Errs P :=
  fun _ => .of_orElse h

theorem bucket_errs {P : Error → Prop} (h : ∀ e, P (generic e)) : bucket.Errs P :=
  fun _ => .of_orElse h

theorem resume_errs {P : Error → Prop} (h : ∀ e, P (generic e)) (key uploadId : String) :
    (resume key uploadId).Errs P :=
  fun _ => .of_orElse h

theorem generic_ne_finished (location : Path) (e : String) :
    generic e ≠ multipartFinished location := nofun

theorem multipartUpload_decides : multipartUpload.Decides CleanReplies where
  upload location uploadId n data := by
    have hgeneric := generic_ne_finished location
    refine .bind (onStore_errs ?_) fun part x => ?_
    · exact (bucket_errs hgeneric).bind fun _ => (r2_errs hgeneric _).bind fun _ =>
        (r2_errs hgeneric _).bind fun _ => trivial
    · cases x with
      | error e => exact nofun
      | ok v => trivial
  finish location uploadId := by
    have hgeneric := generic_ne_finished location
    refine .bind (onStore_errs ((bucket_errs hgeneric).bind fun _ => resume_errs hgeneric _ _))
      fun _ x => ?_
    cases x with
    | error e => exact nofun
    | ok v => exact onStore_errs ((r2_errs hgeneric _).bind fun _ => trivial)
  cancel location uploadId := by
    have hgeneric := generic_ne_finished location
    exact onStore_errs ((bucket_errs hgeneric).bind fun _ => (resume_errs hgeneric _ _).bind fun _ =>
      r2_errs hgeneric _)
  complete _ _ _ _ _ h := h.strict (completeUpload_strict _ _)
  abort _ _ _ _ _ h := h.strict (abortUpload_strict _ _)

end R2Store

namespace BindingStore
variable {F : Formats}

def textHeader (response : HttpResponse) (name : String) : Prop :=
  ∀ value, response.header name = some value → isHeaderText value = true

/-- A success, readable where the result of the call is read. -/
def GoodResponse (c : Call) (response : HttpResponse) : Prop :=
  isSuccess response.status = true ∧
    (c = .complete → textHeader response "etag" ∧ textHeader response "x-slate-version")

/-- The bridge answered with a success, or the mutex was not poisoned. -/
def Succeeded (c : Call) : (d : Demand Exchange) × Supply Answer d → Prop
  | ⟨.store (.send _),x⟩ => ∃ response, x = .ok response ∧ GoodResponse c response
  | ⟨.store (.receive _),x⟩ => ∃ v, x = .ok v
  | ⟨.push _,x⟩ => ∃ v, x = .ok v
  | ⟨.parts,x⟩ => ∃ v, x = .ok v

abbrev StoreSucceeded (c : Call) (x : (q : Exchange) × Answer q) : Prop := Succeeded c ⟨.store x.1,x.2⟩

/-- The replies under which `complete` and `abort` succeed, for a handle whose
location and upload id can be sent in a header. -/
def CleanReplies (F : Formats) (location : Path) (uploadId : String) (c : Call) (tr : Replies Answer) : Prop :=
  F.isHeaderValue location.raw = true ∧ F.isHeaderValue uploadId = true ∧ ∀ x ∈ tr, Succeeded c x

theorem headerValue_ok {response : HttpResponse} {name : String} :
    (∃ v, headerValue response name = .ok v) ↔ textHeader response name := by
  unfold headerValue textHeader
  cases response.header name with
  | none => simp
  | some value =>
    by_cases hv : isHeaderText value = true <;> simp [hv]

theorem putResult_ok {response : HttpResponse} :
    (∃ v, putResult response = .ok v) ↔
      textHeader response "etag" ∧ textHeader response "x-slate-version" := by
  rw [← headerValue_ok, ← headerValue_ok]
  constructor
  · rintro ⟨v,h⟩
    obtain ⟨tag,htag,h⟩ := Traversals.bind_ok.mp h
    obtain ⟨version,hversion,_⟩ := Traversals.bind_ok.mp h
    exact ⟨⟨tag,htag⟩,⟨version,hversion⟩⟩
  · rintro ⟨⟨tag,htag⟩,⟨version,hversion⟩⟩
    exact ⟨_,Traversals.bind_ok.mpr ⟨tag,htag,Traversals.bind_ok.mpr ⟨version,hversion,rfl⟩⟩⟩

theorem checkResponse_fails {response : HttpResponse} (h : isSuccess response.status ≠ true) :
    (checkResponse F response).Fails := by
  simp only [checkResponse, if_neg h]
  exact fun _ => trivial

theorem send_strict {c : Call} {q : HttpRequest} {α : Type} {f : HttpResponse → BindingM α}
    (hq : q.headers.all (fun h => F.isHeaderValue h.2) = true)
    (hgood : ∀ response, GoodResponse c response → (f response).Strict (StoreSucceeded c))
    (hbad : ∀ response, ¬ GoodResponse c response → (f response).Fails) :
    (send F q >>= f).Strict (StoreSucceeded c) := by
  simp only [send, if_pos hq]
  intro x
  cases x with
  | error e =>
    refine ⟨?_,fun _ => trivial⟩
    rintro ⟨_,h,_⟩
    cases h
  | ok response =>
    refine ⟨?_,fun h => hbad response fun hr => h ⟨response,rfl,hr⟩⟩
    rintro ⟨_,h,hr⟩
    cases h
    exact hgood response hr

theorem send_fails {q : HttpRequest} (hq : ¬ q.headers.all (fun h => F.isHeaderValue h.2) = true) :
    (send F q).Fails := by
  simp only [send, if_neg hq]
  trivial

theorem completeParts_strict {location : Path} {uploadId : String} (parts : List (ℕ × String))
    (hl : F.isHeaderValue location.raw = true) (hu : F.isHeaderValue uploadId = true) :
    (completeParts F location uploadId parts).Strict (StoreSucceeded .complete) := by
  have htext : F.isHeaderValue "multipart-complete" = true := F.isHeaderValue_text _ (by decide)
  refine send_strict ?_ (fun response h => ?_) (fun response h => ?_)
  · simp [completeRequest, withHeader, request, hl, hu, htext]
  · obtain ⟨hs,htags⟩ := h
    obtain ⟨v,hv⟩ := putResult_ok.mpr (htags rfl)
    simp only [checkResponse, if_pos hs, Prog.pure_eq, Prog.ok_bind, hv]
    trivial
  · by_cases hs : isSuccess response.status = true
    · cases hv : putResult response with
      | error e =>
        simp only [checkResponse, if_pos hs, Prog.pure_eq, Prog.ok_bind, hv]
        trivial
      | ok v => exact absurd ⟨hs,fun _ => putResult_ok.mp ⟨v,hv⟩⟩ h
    · exact (checkResponse_fails hs).bind

theorem completeUpload_strict {location : Path} {uploadId : String}
    (hl : F.isHeaderValue location.raw = true) (hu : F.isHeaderValue uploadId = true) :
    (completeUpload F location uploadId).Strict (Succeeded .complete) := by
  intro x
  cases x with
  | error e =>
    refine ⟨?_,fun _ => trivial⟩
    rintro ⟨_,h⟩
    cases h
  | ok parts =>
    exact ⟨fun _ => onStore_strict (completeParts_strict _ hl hu),fun h => absurd ⟨parts,rfl⟩ h⟩

theorem abortUpload_strict {location : Path} {uploadId : String}
    (hl : F.isHeaderValue location.raw = true) (hu : F.isHeaderValue uploadId = true) :
    (abortUpload F location uploadId).Strict (Succeeded .abort) := by
  have htext : F.isHeaderValue "multipart-abort" = true := F.isHeaderValue_text _ (by decide)
  refine onStore_strict (send_strict ?_ (fun response h => ?_) (fun response h => ?_))
  · simp [abortRequest, withHeader, request, hl, hu, htext]
  · simp only [checkResponse, if_pos h.1]
    trivial
  · by_cases hs : isSuccess response.status = true
    · refine absurd ⟨hs,fun hc => ?_⟩ h
      cases hc
    · exact (checkResponse_fails hs).bind

theorem generic_ne_finished (location : Path) (e : String) :
    generic e ≠ multipartFinished location := nofun

theorem completeUpload_fails {location : Path} {uploadId : String}
    (h : ¬ (F.isHeaderValue location.raw = true ∧ F.isHeaderValue uploadId = true)) :
    (completeUpload F location uploadId).Fails := by
  intro x
  cases x with
  | error e => trivial
  | ok parts =>
    refine onStore_fails (send_fails fun hall => h ?_).bind
    simp only [completeRequest, withHeader, request, List.all_append, List.all_cons, List.all_nil,
      Bool.and_true, Bool.and_eq_true] at hall
    exact ⟨hall.1.1,hall.2⟩

theorem abortUpload_fails {location : Path} {uploadId : String}
    (h : ¬ (F.isHeaderValue location.raw = true ∧ F.isHeaderValue uploadId = true)) :
    (abortUpload F location uploadId).Fails := by
  refine onStore_fails (send_fails fun hall => h ?_).bind
  simp only [abortRequest, withHeader, request, List.all_append, List.all_cons, List.all_nil,
    Bool.and_true, Bool.and_eq_true] at hall
  exact ⟨hall.1.1,hall.2⟩

theorem multipartUpload_decides : (multipartUpload F).Decides (CleanReplies F) where
  upload location uploadId n data := by
    have hgeneric := generic_ne_finished location
    refine .bind (onStore_errs ?_) fun part x => ?_
    · exact (send_errs hgeneric _).bind fun _ => (checkResponse_errs hgeneric _).bind fun _ =>
        (receiveJson_errs hgeneric _ _).bind fun _ => trivial
    · cases x with
      | error e => exact nofun
      | ok v => trivial
  finish location uploadId := by
    have hgeneric := generic_ne_finished location
    intro x
    cases x with
    | error e => exact nofun
    | ok parts =>
      exact onStore_errs ((send_errs hgeneric _).bind fun _ => (checkResponse_errs hgeneric _).bind
        fun _ => putResult_errs hgeneric _)
  cancel location uploadId := by
    have hgeneric := generic_ne_finished location
    exact onStore_errs ((send_errs hgeneric _).bind fun _ => (checkResponse_errs hgeneric _).bind
      fun _ => trivial)
  complete location uploadId tr os r h := by
    by_cases hs : F.isHeaderValue location.raw = true ∧ F.isHeaderValue uploadId = true
    · rw [h.strict (completeUpload_strict hs.1 hs.2)]
      simp [CleanReplies, hs]
    · obtain ⟨e,rfl⟩ := h.fails (completeUpload_fails hs)
      simp only [CleanReplies, ← and_assoc, hs, false_and, iff_false]
      rintro ⟨_,h⟩
      cases h
  abort location uploadId tr os r h := by
    by_cases hs : F.isHeaderValue location.raw = true ∧ F.isHeaderValue uploadId = true
    · rw [h.strict (abortUpload_strict hs.1 hs.2)]
      simp [CleanReplies, hs]
    · obtain ⟨e,rfl⟩ := h.fails (abortUpload_fails hs)
      simp only [CleanReplies, ← and_assoc, hs, false_and, iff_false]
      rintro ⟨_,h⟩
      cases h

end BindingStore

/-- On either handle a call is refused as finished only after a successful
`complete` or `abort`, exactly if the first of these meets no failure or is the
last call. -/
theorem handles_refuse_only_finished_iff (F : Formats) (location : Path) (uploadId : String) :
    (∀ es h, Calls R2Store.multipartUpload (.fresh location uploadId) es h →
      (RefusesOnlyFinished location es ↔
        EndsCleanly R2Store.CleanReplies location uploadId es)) ∧
    (∀ es h, Calls (BindingStore.multipartUpload F) (.fresh location uploadId) es h →
      (RefusesOnlyFinished location es ↔
        EndsCleanly (BindingStore.CleanReplies F) location uploadId es)) :=
  ⟨fun _ _ hes => R2Store.multipartUpload_decides.refusesOnlyFinished_iff hes,
    fun _ _ hes => BindingStore.multipartUpload_decides.refusesOnlyFinished_iff hes⟩

/-- A `complete` whose bucket lookup fails, and the `abort` after it. -/
theorem abort_refused_after_failed_complete : ¬ ∀ es h,
    Calls R2Store.multipartUpload (.fresh ⟨"wal/1",by decide⟩ "u") es h →
      RefusesOnlyFinished ⟨"wal/1",by decide⟩ es := by
  intro hlaw
  let failed : Entry Reply :=
    ⟨.complete,[⟨.store .bucket,.error "no binding"⟩],.error (R2Store.generic "no binding")⟩
  let refused : Entry Reply := ⟨.abort,[],.error (multipartFinished ⟨"wal/1",by decide⟩)⟩
  have hfailed : Calls R2Store.multipartUpload (.fresh ⟨"wal/1",by decide⟩ "u") ([] ++ [failed]) _ :=
    .snoc .nil .complete (.call (.refl _))
  have hrefused : Calls R2Store.multipartUpload (.fresh ⟨"wal/1",by decide⟩ "u")
      ([] ++ [failed] ++ [refused]) _ := .snoc hfailed .abort (.refl _)
  obtain ⟨d,hd,_,hok⟩ := hlaw _ _ hrefused [failed] refused [] rfl rfl
  rw [List.mem_singleton] at hd
  rw [hd] at hok
  cases hok

end SlatedbCloudflare
