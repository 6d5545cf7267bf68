import SlatedbCloudflare.Container.Addressing
import SlatedbCloudflare.Databases.Buckets
import SlatedbCloudflare.Databases.Keys
import SlatedbCloudflare.DurableObject.ConditionalWrites
import SlatedbCloudflare.DurableObject.Listing
import SlatedbCloudflare.Container.Listing

/-! # What the adapters ask for

Both adapters as stores, with the requests of their calls: those about a location
are about one key, those of a listing carry the prefix. A database on either asks
about its own keys, unless it lists its root.
-/
namespace SlatedbCloudflare
open Programs Paging ObjectStore R2 Http Perf

def R2.Request.About (key : String) : Request → Prop
  | .bucket | .body _ => True
  | .head k | .get k _ _ | .put k _ _ | .delete k => k = key
  | _ => False

def R2.Request.Lists (keyPrefix : String) (r : Request) : Prop :=
  r = .bucket ∨ ∃ c d, r = .list (some keyPrefix) c d

namespace R2.Request
variable {K : String → Prop} {key keyPrefix : String} {r : Request}

theorem About.within (h : r.About key) (hkey : K key) : r.Within K := by
  cases r with
  | bucket | body => trivial
  | head | get | put | delete =>
    cases h
    exact hkey
  | list | createMultipartUpload | resumeMultipartUpload | uploadPart | completeMultipartUpload
  | abortMultipartUpload => exact h.elim

theorem About.outside (h : r.About key) (hkey : ¬ K key) : r.Outside K := by
  cases r with
  | bucket | body | head | get => trivial
  | put | delete =>
    cases h
    exact hkey
  | list | createMultipartUpload | resumeMultipartUpload | uploadPart | completeMultipartUpload
  | abortMultipartUpload => exact h.elim

theorem Lists.within (h : r.Lists keyPrefix)
    (hkeys : ∀ key : String, keyPrefix.toList <+: key.toList → K key) : r.Within K := by
  rcases h with rfl | ⟨c,d,rfl⟩
  · trivial
  · exact hkeys

theorem Lists.outside (h : r.Lists keyPrefix) : r.Outside K := by
  rcases h with rfl | ⟨c,d,rfl⟩ <;> trivial

end R2.Request

section
variable {Req : Type} {Resp : Req → Type} {Out : Type}

/-- The requests of a store's calls, by what they are about: `about` a key, or
listing a prefix. -/
structure AsksAbout (S : Store Req Resp Out) (about lists : String → Req → Prop) (keyOf : Path → String) :
    Prop where
  putOpts : ∀ location payload mode, (S.putOpts location payload mode).Asks (about (keyOf location))
  getOpts : ∀ location options, (S.getOpts location options).Asks (about (keyOf location))
  delete : ∀ location, (S.delete location).Asks (about (keyOf location))
  list : ∀ p : Path, (S.list (some p)).Asks (lists p.raw)
  listWithDelimiter : ∀ p : Path, (S.listWithDelimiter (some p)).Asks (lists p.raw)
  copyOpts : ∀ source target mode, (S.copyOpts source target mode).Asks
    (fun r => about (keyOf source) r ∨ about (keyOf target) r)

def Database.prog (a : Database) (S : Store Req Resp Out) (call : ObjectStoreCall) :
    Prog Req Resp Out Error ObjectStoreResult := (PrefixStore.new a.root S).run call

/-- Every request of a database's call is about a key below its name, or lists a prefix
below it. -/
theorem AsksAbout.prog {S : Store Req Resp Out} {about lists : String → Req → Prop} {keyOf : Path → String}
    (h : AsksAbout S about lists keyOf) (a : Database) (call : ObjectStoreCall) {P : Req → Prop}
    (habout : ∀ location r, about (keyOf (PrefixStore.fullPath a.root location)) r → P r)
    (hlists : ∀ location : Path, (location.raw = "" → call.ListsRoot) → ∀ r,
      lists (PrefixStore.fullPath a.root location).raw r → P r) : (a.prog S call).Asks P := by
  cases call with
  | put location payload mode =>
    refine Prog.Asks.bind ?_ fun _ => trivial
    exact (h.putOpts _ payload mode).imp (habout location)
  | get location options =>
    refine Prog.Asks.bind (Prog.Asks.bind ?_ fun _ => trivial) fun _ => trivial
    exact (h.getOpts _ options).imp (habout location)
  | delete location =>
    refine Prog.Asks.bind (Prog.Asks.bind ?_ fun _ => trivial) fun _ => trivial
    exact (h.delete _).imp (habout location)
  | list keyPrefix =>
    refine Prog.Asks.bind (Prog.Asks.bind ?_ fun _ => trivial) fun _ => trivial
    exact (h.list _).imp (hlists _ id)
  | listWithDelimiter keyPrefix =>
    refine Prog.Asks.bind (Prog.Asks.bind ?_ fun _ => trivial) fun _ => trivial
    exact (h.listWithDelimiter _).imp (hlists _ id)
  | copy source target mode =>
    refine Prog.Asks.bind ((h.copyOpts _ _ mode).imp ?_) fun _ => trivial
    rintro r (hr | hr)
    · exact habout source r hr
    · exact habout target r hr

end

namespace R2Store
variable (E : PathEncoding) (lib : Crate) (fuel : ℕ)

def store : Store Request Reply Increment where
  putOpts := putOpts
  getOpts := getInner lib
  delete := delete
  list := list E lib fuel
  listWithDelimiter := listWithDelimiter E lib fuel
  copyOpts := copyOpts lib

variable {E lib fuel}

theorem putOpts_about (location : Path) (payload : List Bytes) (mode : PutMode) :
    (putOpts location payload mode).Asks (Request.About location.raw) := by
  unfold putOpts putBytes
  refine Prog.Asks.bind trivial fun _ => .bind ⟨trivial,fun x => by cases x <;> trivial⟩ fun _ => ?_
  refine Prog.Asks.bind (by cases putConditional mode <;> trivial) fun c => ?_
  refine Prog.Asks.bind ⟨rfl,fun x => by cases x <;> trivial⟩ fun object => ?_
  cases object <;> trivial

theorem getInner_about (location : Path) (options : GetOptions) :
    (getInner lib location options).Asks (Request.About location.raw) :=
  getInner_asks_of lib options trivial (fun _ => trivial) rfl fun _ _ => rfl

theorem listPage_lists (p : Path) (cursor delimiter : Option String) :
    (listPage E lib (some p.raw) cursor delimiter).Asks (Request.Lists p.raw) := by
  refine Prog.Asks.bind trivial fun _ => .bind ⟨.inl rfl,fun x => by cases x <;> trivial⟩ fun _ => ?_
  exact Prog.Asks.bind ⟨.inr ⟨cursor,delimiter,rfl⟩,fun x => by cases x <;> trivial⟩ fun _ => trivial

theorem store_asks : AsksAbout (store E lib fuel) Request.About Request.Lists Path.raw where
  putOpts := putOpts_about
  getOpts := getInner_about
  delete location := by
    refine Prog.Asks.bind trivial fun _ => .bind ⟨trivial,fun x => by cases x <;> trivial⟩ fun _ => ?_
    exact Prog.Asks.bind ⟨rfl,fun x => by cases x <;> trivial⟩ fun _ => trivial
  list p := by
    refine drain_asks (fun cursor => ?_) fuel _
    exact Prog.Asks.bind (listPage_lists p cursor none) fun _ => trivial
  listWithDelimiter p := gather_asks (fun cursor => listPage_lists p cursor (some "/")) fuel none _
  copyOpts source target mode := by
    refine ((getInner_about source {}).imp fun _ => .inl).bind fun got => ?_
    exact ((putOpts_about target _ _).imp fun _ => .inr).bind fun _ => trivial

end R2Store

namespace BindingStore
open Bridge

theorem handleR2_about {F : Formats} {request : HttpRequest}
    (ho : request.header "x-slate-operation" = none) :
    (handleR2 F request).Asks (fun r => ∃ key, objectPath request = .ok key ∧ r.About key) := by
  refine .recover ?_ fun _ => trivial
  unfold dispatch
  simp only [ho, Option.getD_none, String.reduceEq, ↓reduceIte]
  cases hp : objectPath request with
  | error e => trivial
  | ok key =>
    simp only [Prog.orElse_ok, Prog.ok_bind]
    split
    · exact (call_asks ⟨key,rfl,rfl⟩).bind fun _ => trivial
    · exact (call_asks ⟨key,rfl,rfl⟩).bind fun _ => trivial
    · exact (call_asks ⟨key,rfl,rfl⟩).bind fun _ => trivial
    · exact (call_asks ⟨key,rfl,rfl⟩).bind fun _ => trivial
    · trivial

variable (F : Formats) (E : PathEncoding) (lib : Crate) (fuel : ℕ)

def store : Store Exchange Answer (Counter × ℕ) where
  putOpts := putOpts F
  getOpts := getOpts F lib
  delete := delete F
  list := list F lib fuel
  listWithDelimiter := listWithDelimiter F E lib fuel
  copyOpts := copyOpts F lib

variable {F E lib fuel}

theorem Plain.handled {location : Path} {q : HttpRequest} (h : Plain F location q) :
    Exchange.Handled F (Request.About (bridgeKey F location)) (.send q) := by
  rintro _ ⟨⟩
  have ho : (q.deliver F).header "x-slate-operation" = none := by
    rw [HttpRequest.header, HttpRequest.deliver, lookup_received, h.operation]
    rfl
  refine (handleR2_about ho).imp ?_
  rintro r ⟨key,hkey,hr⟩
  obtain ⟨rfl,_⟩ := h.names.objectPath hkey
  exact hr

theorem receive_handled (P : R2.Request → Prop) (body : Body) : Exchange.Handled F P (.receive body) := nofun

theorem listPage_lists (p : Path) (cursor delimiter : Option String) :
    (listPage F (some p.raw) cursor delimiter).Asks (Exchange.Handled F (Request.Lists p.raw)) := by
  have hhandled : Exchange.Handled F (Request.Lists p.raw)
      (.send (listRequest (listQuery (some p.raw) cursor delimiter))) := by
    rintro _ ⟨⟩
    obtain ⟨hbegin,hcursor,hdelimiter⟩ := lookup_listQuery (some p.raw) cursor delimiter
    rw [handleR2_listRequest, hbegin, hcursor, hdelimiter]
    exact Prog.Asks.recover ((call_asks (.inr ⟨cursor,delimiter,rfl⟩)).bind fun _ => trivial) fun _ => trivial
  refine Prog.Asks.bind trivial fun _ => (send_asks fun _ => hhandled).bind fun response => ?_
  refine (checkResponse_asks (receive_handled _ _)).bind fun response => ?_
  refine Prog.Asks.bind ⟨receive_handled _ _,fun x => by cases x <;> trivial⟩ fun body => ?_
  refine Prog.Asks.bind (by cases body.toJson F <;> trivial) fun document => ?_
  cases ListPage.ofJson F document <;> trivial

theorem mapMeta_asks {P : Exchange → Prop} (page : ListPage) :
    (Prog.orElse (page.objects.mapM (ListObject.intoMeta lib)) .err : BindingM _).Asks P := by
  cases page.objects.mapM (ListObject.intoMeta lib) <;> trivial

theorem store_asks : AsksAbout (store F E lib fuel) (fun key => Exchange.Handled F (Request.About key))
    (fun keyPrefix => Exchange.Handled F (Request.Lists keyPrefix)) (bridgeKey F) where
  putOpts _ payload mode := putOpts_plain (fun _ => Plain.handled) (receive_handled _) payload mode
  getOpts _ options := getOpts_plain (fun _ => Plain.handled) (receive_handled _) options
  delete _ := delete_plain (fun _ => Plain.handled) (receive_handled _)
  list p := by
    refine drain_asks (fun cursor => ?_) fuel _
    refine Prog.Asks.bind (listPage_lists p cursor none) fun page => ?_
    exact Prog.Asks.bind (mapMeta_asks page) fun _ => trivial
  listWithDelimiter p := by
    refine gather_asks (fun cursor => ?_) fuel none _
    refine Prog.Asks.bind (listPage_lists p cursor (some "/")) fun page => ?_
    exact Prog.Asks.bind (mapMeta_asks page) fun _ => trivial
  copyOpts source target mode := by
    have hget : (getOpts F lib source {}).Asks (Exchange.Handled F (Request.About (bridgeKey F source))) :=
      getOpts_plain (fun _ => Plain.handled) (receive_handled _) {}
    refine (hget.imp fun _ => .inl).bind fun got => ?_
    refine Prog.Asks.bind ?_ fun bytes => ?_
    · exact Prog.Asks.bind ⟨.inl (receive_handled _ _),fun x => by cases x <;> trivial⟩ fun _ => trivial
    · refine (Prog.Asks.imp ?_ fun _ => .inr).bind fun _ => trivial
      exact putOpts_plain (fun _ => Plain.handled) (receive_handled _) [bytes] (copyMode mode)

end BindingStore

end SlatedbCloudflare
