import SlatedbCloudflare.Library.Streams
import SlatedbCloudflare.DurableObject.Listing
import SlatedbCloudflare.Container.Handled
import SlatedbCloudflare.Container.Listing
import SlatedbCloudflare.Listing.Recursive

/-! # Pagination

A listing is answered by a chain of pages. The first is asked for without a cursor,
each later one with the cursor of the page before it.
-/
namespace SlatedbCloudflare
open Programs Paging ObjectStore R2 Http

namespace R2Store
variable (E : PathEncoding) (lib : Crate) (keyPrefix delimiter : Option String)

/-- The binding is found, and R2 answers the request at a cursor with a page. -/
def ServesPage (c : Option String) (tr : List ((r : Request) × Reply r))
    (x : Objects × Option String) : Prop :=
  tr = [⟨.bucket,.ok ()⟩,⟨.list (some (keyPrefix.getD "")) c delimiter,.ok x.1⟩] ∧ x.2 = x.1.next

variable {E lib keyPrefix delimiter}

theorem listPage_answered {c : Option String} {tr : List ((r : Request) × Reply r)} {v : Objects}
    {next : Option String} (h : ServesPage keyPrefix delimiter c tr (v,next)) :
    Answered (fun c => listPage E lib keyPrefix c delimiter) c tr (described E lib v,next) := by
  obtain ⟨rfl,hnext⟩ := h
  have hnext : next = v.next := hnext
  subst hnext
  exact ⟨_,.emit (.call (.call (.refl _)))⟩

theorem listObjects_answered {c : Option String} {tr : List ((r : Request) × Reply r)} {v : Objects}
    {next : Option String} (h : ServesPage keyPrefix none c tr (v,next)) :
    Answered (listObjects E lib keyPrefix) c tr ((described E lib v).1,next) := by
  obtain ⟨os,hpage⟩ := listPage_answered h
  exact ⟨os,hpage.bind_result rfl⟩

end R2Store

namespace BindingStore
variable (F : Formats) (E : PathEncoding) (lib : Crate) (keyPrefix delimiter : Option String)

def Decodable (v : Objects) : Prop :=
  ∀ o ∈ v.objects, o.size < 2 ^ 64 ∧ ∃ q, lib.parse o.key = .ok q

/-- The bridge passes the request at a cursor on to R2, and the page in R2's answer
back to the client. -/
def ServesPage (c : Option String) (tr : List ((q : Exchange) × Answer q))
    (x : Objects × Option String) : Prop :=
  ∃ response os, Returns (Bridge.handleR2 F ((listRequest (listQuery keyPrefix c delimiter)).deliver F))
      [⟨.list keyPrefix c delimiter,.ok x.1⟩] os (.ok response) ∧
    tr = [⟨.send (listRequest (listQuery keyPrefix c delimiter)),.ok (response.deliver F)⟩,
      ⟨.receive (response.deliver F).body,.ok (response.deliver F).body⟩] ∧
    x.2 = x.1.next ∧ Decodable lib x.1

variable {F E lib keyPrefix delimiter}

def described (E : PathEncoding) (lib : Crate) (v : Objects) : List ObjectMeta × List Path :=
  (v.objects.map (fun o => bridgedMeta (keyLocation lib o.key) o),
    v.delimitedPrefixes.map (fun value => Path.ofString E (trimEndSlashes value)))

theorem listPage_answered {c : Option String} {tr : List ((q : Exchange) × Answer q)} {v : Objects}
    {next : Option String} (h : ServesPage F lib keyPrefix delimiter c tr (v,next)) :
    Answered (fun c => listPage F keyPrefix c delimiter) c tr
      ⟨v.objects.map ListObject.ofObject,v.delimitedPrefixes,next⟩ := by
  obtain ⟨response,os,hhandled,rfl,hnext,hdecodable⟩ := h
  have hnext : next = v.next := hnext
  subst hnext
  obtain ⟨hbegin,hcursor,hdelimiter⟩ := lookup_listQuery keyPrefix c delimiter
  rw [handleR2_listRequest, hbegin, hcursor, hdelimiter] at hhandled
  obtain ⟨x,htr,hresponse⟩ := Bridge.of_once hhandled
  cases htr
  cases hresponse
  have hdecoded := ListPage.ofJson_listed (F := F) fun o ho => (hdecodable o ho).1
  have hsent := send_answered (F := F) (listRequest_sent (listQuery keyPrefix c delimiter))
    (HttpResponse.deliver F (Bridge.encoded (fun v => Bridge.jsonResponse (Bridge.listedPage F v)) (.ok v)))
  have hlists : Returns (increment .lists 1) [] [(.lists,1)] (.ok ()) := .emit (.refl _)
  exact ⟨_,hlists.bind (hsent.bind ((checkResponse_passes rfl).bind (receiveJson_decodes hdecoded)))⟩

theorem intoMeta_decodable {v : Objects} (h : Decodable lib v) :
    (v.objects.map ListObject.ofObject).mapM (ListObject.intoMeta lib) =
      .ok (v.objects.map (fun o => bridgedMeta (keyLocation lib o.key) o)) := by
  rw [Traversals.mapM_except, List.forall₂_map_left_iff, List.forall₂_map_right_iff, List.forall₂_same]
  intro o ho
  obtain ⟨_,q,hq⟩ := h o ho
  rw [ListObject.intoMeta, ListObject.ofObject, keyLocation, hq]
  rfl

theorem listObjects_answered {c : Option String} {tr : List ((q : Exchange) × Answer q)} {v : Objects}
    {next : Option String} (h : ServesPage F lib keyPrefix none c tr (v,next)) :
    Answered (listObjects F lib keyPrefix) c tr ((described E lib v).1,next) := by
  obtain ⟨os,hpage⟩ := listPage_answered h
  obtain ⟨_,_,_,_,_,hdecodable⟩ := h
  refine ⟨os,hpage.bind_result ?_⟩
  simp only [intoMeta_decodable hdecodable]
  rfl

theorem listLevel_answered {c : Option String} {tr : List ((q : Exchange) × Answer q)} {v : Objects}
    {next : Option String} (h : ServesPage F lib keyPrefix (some "/") c tr (v,next)) :
    Answered (listLevel F E lib keyPrefix) c tr (described E lib v,next) := by
  obtain ⟨os,hpage⟩ := listPage_answered h
  obtain ⟨_,_,_,_,_,hdecodable⟩ := h
  refine ⟨os,hpage.bind_result ?_⟩
  simp only [intoMeta_decodable hdecodable]
  rfl

end BindingStore

/-- Both adapters read any chain of pages once and in order, and return all of it. -/
theorem pagination (F : Formats) (E : PathEncoding) (lib : Crate) (keyPrefix : Option Path) :
    (∀ tr vs error, Served (R2Store.ServesPage (keyPrefix.map Path.raw) none)
      (Failed (R2Store.listObjects E lib (keyPrefix.map Path.raw))) none tr vs error →
      ∀ n k, vs.length < n → Streamed (R2Store.listObjects E lib (keyPrefix.map Path.raw)) n k tr
        (vs.flatMap fun v => (R2Store.described E lib v).1) error) ∧
    (∀ tr vs error, Served (BindingStore.ServesPage F lib (keyPrefix.map Path.raw) none)
      (Failed (BindingStore.listObjects F lib (keyPrefix.map Path.raw))) none tr vs error →
      ∀ n k, vs.length < n → Streamed (BindingStore.listObjects F lib (keyPrefix.map Path.raw)) n k tr
        (vs.flatMap fun v => (BindingStore.described E lib v).1) error) ∧
    (∀ tr vs error, Served (R2Store.ServesPage (keyPrefix.map Path.raw) (some "/"))
      (Failed (fun c => R2Store.listPage E lib (keyPrefix.map Path.raw) c (some "/"))) none tr vs error →
      ∀ n, vs.length < n → Along (R2Store.listWithDelimiter E lib n keyPrefix) tr tr (overall error
        ⟨vs.flatMap fun v => (R2Store.described E lib v).2,vs.flatMap fun v => (R2Store.described E lib v).1⟩)) ∧
    (∀ tr vs error, Served (BindingStore.ServesPage F lib (keyPrefix.map Path.raw) (some "/"))
      (Failed (BindingStore.listLevel F E lib (keyPrefix.map Path.raw))) none tr vs error →
      ∀ n, vs.length < n → Along (BindingStore.listWithDelimiter F E lib n keyPrefix) tr tr (overall error
        ⟨vs.flatMap fun v => (BindingStore.described E lib v).2,
          vs.flatMap fun v => (BindingStore.described E lib v).1⟩)) := by
  have hextend : ∀ pages : List (List ObjectMeta × List Path),
      pages.foldl ListResult.extend ⟨[],[]⟩ = ⟨pages.flatMap Prod.snd,pages.flatMap Prod.fst⟩ := by
    intro pages
    rw [ListResult.foldl_extend]
    rfl
  refine ⟨?_,?_,?_,?_⟩
  · intro tr vs error h n k hn
    exact streamed (fun c tr v next hv => R2Store.listObjects_answered hv) h hn k
  · intro tr vs error h n k hn
    exact streamed (fun c tr v next hv => BindingStore.listObjects_answered hv) h hn k
  · intro tr vs error h n hn
    have hall : Along (R2Store.listWithDelimiter E lib n keyPrefix) tr tr (overall error
        ((vs.map (R2Store.described E lib)).foldl ListResult.extend ⟨[],[]⟩)) :=
      gathered ListResult.extend (fun c tr v next hv => R2Store.listPage_answered hv) h hn ⟨[],[]⟩
    rw [hextend, List.flatMap_map, List.flatMap_map] at hall
    exact hall
  · intro tr vs error h n hn
    have hall : Along (BindingStore.listWithDelimiter F E lib n keyPrefix) tr tr (overall error
        ((vs.map (BindingStore.described E lib)).foldl ListResult.extend ⟨[],[]⟩)) :=
      gathered ListResult.extend (fun c tr v next hv => BindingStore.listLevel_answered hv) h hn ⟨[],[]⟩
    rw [hextend, List.flatMap_map, List.flatMap_map] at hall
    exact hall

def BindingStore.pageReplies (F : Formats) (delimiter c : Option String) (v : Objects) :
    List ((q : Exchange) × Answer q) :=
  [⟨.send (listRequest (listQuery none c delimiter)),.ok ((Bridge.jsonResponse (Bridge.listedPage F v)).deliver F)⟩,
    ⟨.receive (.json (Bridge.listedPage F v)),.ok (.json (Bridge.listedPage F v))⟩]

theorem BindingStore.servesPage {F : Formats} {lib : Crate} {delimiter c : Option String} {v : Objects}
    (h : Decodable lib v) :
    ServesPage F lib none delimiter c (pageReplies F delimiter c v) (v,v.next) := by
  obtain ⟨os,hhandled⟩ := Bridge.once_returns (.list none c delimiter)
    (fun v => Bridge.jsonResponse (Bridge.listedPage F v)) (.ok v)
  obtain ⟨hbegin,hcursor,hdelimiter⟩ := lookup_listQuery none c delimiter
  refine ⟨Bridge.jsonResponse (Bridge.listedPage F v),os,?_,rfl,rfl,h⟩
  rw [handleR2_listRequest, hbegin, hcursor, hdelimiter]
  exact hhandled

/-- A page with an object, an empty one, and a last one with a stale cursor. -/
def firstPage : Objects := ⟨[emptyObject "a"],[],true,some "1"⟩
def emptyPage : Objects := ⟨[],["b/"],true,some "2"⟩
def lastPage : Objects := ⟨[emptyObject "c"],[],false,some "3"⟩

def R2Store.pageReplies (delimiter c : Option String) (v : Objects) : List ((r : Request) × Reply r) :=
  [⟨.bucket,.ok ()⟩,⟨.list (some "") c delimiter,.ok v⟩]

theorem emptyObject_decodable (p : Path) :
    (emptyObject p.raw).size < 2 ^ 64 ∧ ∃ q, Crate.standard.parse (emptyObject p.raw).key = .ok q :=
  ⟨Nat.two_pow_pos 64,p,Crate.standard.parse_raw p⟩

theorem pagination_threePages : ∀ F : Formats,
    Streamed (R2Store.listObjects .standard .standard none) 4 5
      (R2Store.pageReplies none none firstPage ++ (R2Store.pageReplies none (some "1") emptyPage ++
        R2Store.pageReplies none (some "2") lastPage))
      ([firstPage,emptyPage,lastPage].flatMap fun v => (R2Store.described .standard .standard v).1) none ∧
    Streamed (BindingStore.listObjects F .standard none) 4 5
      (BindingStore.pageReplies F none none firstPage ++
        (BindingStore.pageReplies F none (some "1") emptyPage ++
          BindingStore.pageReplies F none (some "2") lastPage))
      ([firstPage,emptyPage,lastPage].flatMap fun v => (BindingStore.described .standard .standard v).1) none := by
  intro F
  have hfirst : BindingStore.Decodable .standard firstPage :=
    fun o ho => by rw [List.mem_singleton.mp ho]; exact emptyObject_decodable ⟨"a",by decide⟩
  have hempty : BindingStore.Decodable .standard emptyPage := fun o ho => absurd ho List.not_mem_nil
  have hlast : BindingStore.Decodable .standard lastPage :=
    fun o ho => by rw [List.mem_singleton.mp ho]; exact emptyObject_decodable ⟨"c",by decide⟩
  obtain ⟨hr2,hbinding,_⟩ := pagination F .standard .standard none
  constructor
  · exact hr2 _ _ _ (.more ⟨rfl,rfl⟩ (.more ⟨rfl,rfl⟩ (.last ⟨rfl,rfl⟩))) 4 5 (by decide)
  · refine hbinding _ _ _ (.more (BindingStore.servesPage hfirst) ?_) 4 5 (by decide)
    exact .more (BindingStore.servesPage hempty) (.last (BindingStore.servesPage hlast))

end SlatedbCloudflare
