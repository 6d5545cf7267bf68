import SlatedbCloudflare.Databases.Stores
import SlatedbCloudflare.Listing.Pagination

/-! # Listing the root of a database

The root is listed by the bare name as the prefix. Over an empty bucket that finds
nothing; an object of any database whose name starts with this name is found.
-/
namespace SlatedbCloudflare
open Programs Messages Isolation Paging ObjectStore R2 Http

def ObjectStore.ObjectStoreResult.Finds : ObjectStoreResult → Prop
  | .listed (some items) => items ≠ []
  | .level (some result) => result.commonPrefixes ≠ [] ∨ result.objects ≠ []
  | _ => False

section Pages
variable {Req : Type} {Resp : Req → Type} {Out : Type} {a : Database} {call : ObjectStoreCall}

/-- The page programs behind the two listings of a store's prefix. -/
structure ListsBy (S : ℕ → Store Req Resp Out) (p : Path)
    (items : Option String → Prog Req Resp Out Error (List ObjectMeta × Option String))
    (level : Option String → Prog Req Resp Out Error ((List ObjectMeta × List Path) × Option String)) :
    Prop where
  list : ∀ fuel, (S fuel).list (some p) = drain items fuel ⟨none,[],false⟩
  listWithDelimiter : ∀ fuel,
    (S fuel).listWithDelimiter (some p) = gather level ListResult.extend fuel none ⟨[],[]⟩

variable {S : ℕ → Store Req Resp Out}
  {items : Option String → Prog Req Resp Out Error (List ObjectMeta × Option String)}
  {level : Option String → Prog Req Resp Out Error ((List ObjectMeta × List Path) × Option String)}
  {Q : (r : Req) × Resp r → Prop}

theorem root_fullPath {keyPrefix : Option Path} (h : (keyPrefix.getD Path.root).raw = "") :
    PrefixStore.fullPath a.root (keyPrefix.getD Path.root) = a.root := a.fullPath_root h

/-- A root listing of one page that is not empty is not empty. -/
theorem ListsBy.finds (h : ListsBy S a.root items level) (hcall : call.ListsRoot)
    (hitems : ∃ tr os m, Returns (items none) tr os (.ok ([m],none)) ∧ ∀ x ∈ tr, Q x)
    (hlevel : ∃ tr os v, Returns (level none) tr os (.ok (v,none)) ∧ v.2 ≠ [] ∧ ∀ x ∈ tr, Q x) :
    ∃ tr os r, Returns (a.prog (S 2) call) tr os (.ok r) ∧ r.Finds ∧ ∀ x ∈ tr, Q x := by
  cases call with
  | put | get | delete | copy => exact hcall.elim
  | list keyPrefix =>
    obtain ⟨tr,os,m,hr,hQ⟩ := hitems
    have hlist : Returns ((S 2).list (some (PrefixStore.fullPath a.root (keyPrefix.getD Path.root)))) tr os
        (.ok (some [m])) := by
      rw [root_fullPath hcall, h.list]
      exact drain_single hr 0
    exact ⟨tr,os,.listed (some [PrefixStore.stripMeta a.root m]),
      Returns.bind_result (Returns.bind_result hlist rfl) rfl,List.cons_ne_nil _ _,hQ⟩
  | listWithDelimiter keyPrefix =>
    obtain ⟨tr,os,v,hr,hv,hQ⟩ := hlevel
    have hlist : Returns ((S 2).listWithDelimiter (some (PrefixStore.fullPath a.root
        (keyPrefix.getD Path.root)))) tr os (.ok (some (ListResult.extend ⟨[],[]⟩ v))) := by
      rw [root_fullPath hcall, h.listWithDelimiter]
      exact hr.bind_result rfl
    refine ⟨tr,os,_,Returns.bind_result (Returns.bind_result hlist rfl) rfl,.inl ?_,hQ⟩
    simpa [ListResult.extend] using hv

theorem ListsBy.never (h : ListsBy S a.root items level) (hcall : call.ListsRoot)
    (hitems : ∀ c tr os v next, Returns (items c) tr os (.ok (v,next)) → (∀ x ∈ tr, Q x) → v = [])
    (hlevel : ∀ c tr os v next, Returns (level c) tr os (.ok (v,next)) → (∀ x ∈ tr, Q x) → v = ([],[]))
    {fuel : ℕ} {tr : List ((r : Req) × Resp r)} {os : List Out} {r : ObjectStoreResult}
    (hr : Returns (a.prog (S fuel) call) tr os (.ok r)) (hQ : ∀ x ∈ tr, Q x) : ¬ r.Finds := by
  cases call with
  | put | get | delete | copy => exact hcall.elim
  | list keyPrefix =>
    obtain ⟨stripped,tr₁,tr₂,os₁,os₂,rfl,rfl,h₁,h₂⟩ := Returns.of_bind_ok hr
    obtain ⟨found,tr₃,tr₄,os₃,os₄,rfl,rfl,h₃,h₄⟩ := Returns.of_bind_ok h₁
    obtain ⟨_,_,hstripped⟩ := h₄.of_ok
    obtain ⟨_,_,hresult⟩ := h₂.of_ok
    cases hstripped
    cases hresult
    rw [root_fullPath hcall, h.list] at h₃
    have hpages : PageItems items Q (fun _ => False) := by
      intro c tr os v next hv hvQ
      rw [hitems c tr os v next hv hvQ]
      exact fun _ hb => absurd hb List.not_mem_nil
    cases found with
    | none => exact id
    | some found =>
      have hnone := hpages.drain h₃ (fun x hx => hQ x (by simp [hx])) (fun _ hb => absurd hb List.not_mem_nil)
      intro hfinds
      exact hfinds (by simpa using List.eq_nil_iff_forall_not_mem.mpr hnone)
  | listWithDelimiter keyPrefix =>
    obtain ⟨stripped,tr₁,tr₂,os₁,os₂,rfl,rfl,h₁,h₂⟩ := Returns.of_bind_ok hr
    obtain ⟨found,tr₃,tr₄,os₃,os₄,rfl,rfl,h₃,h₄⟩ := Returns.of_bind_ok h₁
    obtain ⟨_,_,hstripped⟩ := h₄.of_ok
    obtain ⟨_,_,hresult⟩ := h₂.of_ok
    cases hstripped
    cases hresult
    rw [root_fullPath hcall, h.listWithDelimiter] at h₃
    cases found with
    | none => exact id
    | some found =>
      have hempty : found = ⟨[],[]⟩ := by
        refine gather_keeps (I := fun l => l = ⟨[],[]⟩) ?_ h₃ (fun x hx => hQ x (by simp [hx])) rfl
        intro c tr os v next all hv hvQ hall
        rw [hall, hlevel c tr os v next hv hvQ]
        rfl
      subst hempty
      rintro (hfinds | hfinds)
      · exact hfinds rfl
      · exact hfinds rfl

end Pages

def R2.State.empty : State := ⟨fun _ => none,fun _ => none⟩

abbrev R2.State.Bare (s : State) : Prop := AgreeOn (fun _ => True) s .empty

section Bucket
variable {R : Rules} {s : State} {keyPrefix cursor delimiter : Option String} {v : Objects}

theorem lists_bare (hR : R.ListsByPrefix) (hs : s.Bare) (h : R.lists s.objects keyPrefix cursor delimiter v) :
    v.objects = [] ∧ (delimiter = some "/" → v.delimitedPrefixes = []) := by
  constructor
  · refine List.eq_nil_iff_forall_not_mem.mpr fun o ho => ?_
    have hstored := R.lists_sound _ _ _ _ _ h o ho
    rw [hs o.key trivial] at hstored
    cases hstored
  · rintro rfl
    refine List.eq_nil_iff_forall_not_mem.mpr fun t ht => ?_
    obtain ⟨key,o,hstored,_⟩ := hR.prefixes _ _ _ _ h t ht
    rw [hs key trivial] at hstored
    cases hstored

theorem store_sole (p : Path) : (State.empty.store (emptyObject p.raw)).objects = (soleObject p).bucket.objects := by
  funext key
  by_cases hkey : key = p.raw
  · subst hkey
    rw [soleObject_stored]
    exact Function.update_self p.raw _ _
  · have hnone : (soleObject p).bucket.objects key = none := by
      refine Option.eq_none_iff_forall_ne_some.mpr fun o ho => ?_
      obtain ⟨hmem,heq⟩ := (soleObject p).find_iff.mp ho
      rw [List.mem_singleton.mp hmem] at heq
      exact hkey heq.symm
    rw [hnone]
    exact Function.update_of_ne hkey _ _

theorem serves_sole (hR : R.ListsByPrefix) (p : Path) (keyPrefix : String) {delimiter : Option String}
    (hd : delimiter = none ∨ delimiter = some "/") :
    Serve R (State.empty.store (emptyObject p.raw)) (.list (some keyPrefix) none delimiter)
      (.ok ((soleObject p).page keyPrefix delimiter none)) (State.empty.store (emptyObject p.raw)) := by
  refine .served ⟨?_,rfl⟩
  rw [store_sole]
  exact hR.single (soleObject p) (some keyPrefix) delimiter (by simp [soleObject]) hd

theorem sole_page {p : Path} {keyPrefix : String} (h : keyPrefix.toList <+: p.raw.toList) :
    (soleObject p).page keyPrefix none none = ⟨[emptyObject p.raw],[],false,none⟩ := by
  obtain ⟨rest,hrest⟩ := h
  have hcontinues : Contents.continuation keyPrefix p.raw = some rest :=
    Contents.continuation_iff.mpr hrest.symm
  simp [Contents.page, soleObject, emptyObject, hcontinues]

theorem sole_prefixes {p : Path} {keyPrefix : String} {first rest : List Char}
    (h : Continues keyPrefix p.raw (first ++ '/' :: rest)) (hfirst : '/' ∉ first) :
    ((soleObject p).page keyPrefix (some "/") none).delimitedPrefixes ≠ [] := by
  have hmem : String.ofList (keyPrefix.toList ++ first ++ ['/']) ∈
      ((soleObject p).page keyPrefix (some "/") none).delimitedPrefixes := by
    have hprefixes := ((soleObject p).listing.prefixes keyPrefix
      (String.ofList (keyPrefix.toList ++ first ++ ['/']))).mpr
      ⟨p.raw,_,first,rest,soleObject_stored p,h,hfirst,String.toList_ofList⟩
    simpa [Contents.listing] using hprefixes
  exact List.ne_nil_of_mem hmem

end Bucket

/-- The reply is a failure, or given over a bucket without objects. -/
def FromBare {Req : Type} {Resp : Req → Type} (V : Service State Req Resp) (x : (r : Req) × Resp r) : Prop :=
  V.lost x.1 x.2 ∨ ∃ s t, State.Bare s ∧ V.serve s x.1 x.2 t

namespace R2Store
variable {R : Rules} {E : PathEncoding} {lib : Crate} {a : Database} {call : ObjectStoreCall}

theorem listsBy (p : Path) : ListsBy (store E lib) p (listObjects E lib (some p.raw))
    (fun cursor => listPage E lib (some p.raw) cursor (some "/")) := ⟨fun _ => rfl,fun _ => rfl⟩

theorem listPage_returns {keyPrefix cursor delimiter : Option String} {tr : List ((r : Request) × Reply r)}
    {os : List Perf.Increment} {page : List ObjectMeta × List Path} {next : Option String}
    (h : Returns (listPage E lib keyPrefix cursor delimiter) tr os (.ok (page,next))) :
    ∃ v, ⟨.list (some (keyPrefix.getD "")) cursor delimiter,.ok v⟩ ∈ tr ∧ page = described E lib v := by
  obtain ⟨_,tr₁,tr₂,os₁,os₂,rfl,rfl,_,h₁⟩ := Returns.of_bind_ok h
  obtain ⟨_,tr₃,tr₄,os₃,os₄,rfl,rfl,_,h₂⟩ := h₁.of_bind_ok
  obtain ⟨v,tr₅,tr₆,os₅,os₆,rfl,rfl,h₃,h₄⟩ := h₂.of_bind_ok
  obtain ⟨_,_,hpage⟩ := h₄.of_ok
  cases hpage
  rw [r2_returns h₃]
  exact ⟨v,by simp,rfl⟩

theorem listPage_bare (hR : R.ListsByPrefix) {keyPrefix cursor delimiter : Option String}
    {tr : List ((r : Request) × Reply r)} {os : List Perf.Increment} {page : List ObjectMeta × List Path}
    {next : Option String} (h : Returns (listPage E lib keyPrefix cursor delimiter) tr os (.ok (page,next)))
    (hQ : ∀ x ∈ tr, FromBare (binding R) x) :
    page.1 = [] ∧ (delimiter = some "/" → page.2 = []) := by
  obtain ⟨v,hv,rfl⟩ := listPage_returns h
  rcases hQ _ hv with ⟨_,herror⟩ | ⟨s,t,hs,hserve⟩
  · cases herror
  · obtain ⟨hlists,_⟩ := Serve.does hserve
    obtain ⟨hobjects,hprefixes⟩ := lists_bare hR hs hlists
    constructor
    · simp [described, hobjects]
    · intro hd
      simp [described, hprefixes hd]

theorem root_never (hR : R.ListsByPrefix) (hcall : call.ListsRoot) {fuel : ℕ}
    {tr : List ((r : Request) × Reply r)} {os : List Perf.Increment} {r : ObjectStoreResult}
    (hr : Returns (a.prog (store E lib fuel) call) tr os (.ok r))
    (hQ : ∀ x ∈ tr, FromBare (binding R) x) : ¬ r.Finds := by
  refine (listsBy a.root).never hcall ?_ ?_ hr hQ
  · intro c tr os v next hv hvQ
    obtain ⟨page,tr₁,tr₂,os₁,os₂,rfl,rfl,h₁,h₂⟩ := Returns.of_bind_ok hv
    obtain ⟨_,_,heq⟩ := h₂.of_ok
    cases heq
    exact (listPage_bare hR h₁ (fun x hx => hvQ x (List.mem_append_left _ hx))).1
  · intro c tr os v next hv hvQ
    obtain ⟨hitems,hprefixes⟩ := listPage_bare hR hv hvQ
    exact Prod.ext hitems (hprefixes rfl)

theorem root_finds (hR : R.ListsByPrefix) (hcall : call.ListsRoot) {p : Path} {first rest : List Char}
    (hp : Continues a.name p.raw (first ++ '/' :: rest)) (hfirst : '/' ∉ first) :
    ∃ tr os r, Returns (a.prog (store E lib 2) call) tr os (.ok r) ∧ r.Finds ∧
      ∀ x ∈ tr, (binding R).serve (State.empty.store (emptyObject p.raw)) x.1 x.2
        (State.empty.store (emptyObject p.raw)) := by
  have hserves : ∀ delimiter, delimiter = none ∨ delimiter = some "/" →
      ∀ x ∈ ([⟨.bucket,.ok ()⟩,⟨.list (some a.name) none delimiter,
        .ok ((soleObject p).page a.name delimiter none)⟩] : List ((r : Request) × Reply r)),
      Serve R (State.empty.store (emptyObject p.raw)) x.1 x.2 (State.empty.store (emptyObject p.raw)) := by
    intro delimiter hd
    refine List.forall_mem_cons.mpr ⟨.served rfl,List.forall_mem_singleton.mpr ?_⟩
    exact serves_sole hR p a.name hd
  refine (listsBy a.root).finds hcall ?_ ?_
  · have hpage := sole_page (p := p) ⟨_,hp.symm⟩
    have hserve := hserves none (.inl rfl)
    rw [hpage] at hserve
    have hanswered : ServesPage (some a.name) none none [⟨.bucket,.ok ()⟩,⟨.list (some a.name) none none,
        .ok ⟨[emptyObject p.raw],[],false,none⟩⟩] (⟨[emptyObject p.raw],[],false,none⟩,none) := ⟨rfl,rfl⟩
    obtain ⟨os,hreturns⟩ := listObjects_answered hanswered
    exact ⟨_,os,_,hreturns,hserve⟩
  · have hanswered : ServesPage (some a.name) (some "/") none [⟨.bucket,.ok ()⟩,⟨.list (some a.name) none
        (some "/"),.ok ((soleObject p).page a.name (some "/") none)⟩]
        ((soleObject p).page a.name (some "/") none,none) := ⟨rfl,rfl⟩
    obtain ⟨os,hreturns⟩ := listPage_answered hanswered
    refine ⟨_,os,_,hreturns,?_,hserves (some "/") (.inr rfl)⟩
    simpa [described] using sole_prefixes hp hfirst

end R2Store

namespace BindingStore
variable {R : Rules} {F : Formats} {E : PathEncoding} {lib : Crate} {a : Database} {call : ObjectStoreCall}

theorem listsBy (p : Path) : ListsBy (store F E lib) p (listObjects F lib (some p.raw))
    (listLevel F E lib (some p.raw)) := ⟨fun _ => rfl,fun _ => rfl⟩

theorem listPage_bare (hR : R.ListsByPrefix) {keyPrefix cursor delimiter : Option String}
    {tr : List ((q : Exchange) × Answer q)} {os : List (Counter × ℕ)} {page : ListPage}
    (h : Returns (listPage F keyPrefix cursor delimiter) tr os (.ok page))
    (hQ : ∀ x ∈ tr, FromBare (network (Serve R) F) x) :
    page.objects = [] ∧ (delimiter = some "/" → page.prefixes = []) := by
  obtain ⟨response,body,document,rfl,hs,hj,hp⟩ := listPage_returns h
  obtain ⟨hsent,hreceived⟩ := List.forall_mem_cons.mp hQ
  have hbody : body = response.body := by
    rcases hreceived _ (List.mem_singleton.mpr rfl) with ⟨_,herror⟩ | ⟨s,t,_,hserve⟩
    · cases herror
    · cases hserve
      rfl
  subst hbody
  rcases hsent with ⟨_,herror⟩ | ⟨s,t,hbare,hserve⟩
  · cases herror
  cases hserve with
  | handled hexec =>
    obtain ⟨hbegin,hcursor,hdelimiter⟩ := lookup_listQuery keyPrefix cursor delimiter
    rw [handleR2_listRequest, hbegin, hcursor, hdelimiter] at hexec
    obtain ⟨x,hx,rfl⟩ := Bridge.exec_call hexec
    rcases x with error | v
    · cases hs
    · obtain ⟨hlists,_⟩ := hx.does
      obtain ⟨hobjects,hprefixes⟩ := lists_bare hR hbare hlists
      have hdocument : document = Bridge.listedPage F v := (Except.ok.inj hj).symm
      have hdecoded := ListPage.ofJson_listed (F := F) (v := v) (by simp [hobjects])
      rw [hdocument, hdecoded] at hp
      cases hp
      exact ⟨by simp [hobjects],hprefixes⟩

theorem root_never (hR : R.ListsByPrefix) (hcall : call.ListsRoot) {fuel : ℕ}
    {tr : List ((q : Exchange) × Answer q)} {os : List (Counter × ℕ)} {r : ObjectStoreResult}
    (hr : Returns (a.prog (store F E lib fuel) call) tr os (.ok r))
    (hQ : ∀ x ∈ tr, FromBare (network (Serve R) F) x) : ¬ r.Finds := by
  refine (listsBy a.root).never hcall ?_ ?_ hr hQ
  · intro c tr os v next hv hvQ
    obtain ⟨page,tr₁,tr₂,os₁,os₂,rfl,rfl,h₁,h₂⟩ := Returns.of_bind_ok hv
    obtain ⟨hobjects,_⟩ := listPage_bare hR h₁ (fun x hx => hvQ x (List.mem_append_left _ hx))
    obtain ⟨items,hitems,h₃⟩ := Returns.of_orElse h₂
    obtain ⟨_,_,heq⟩ := h₃.of_ok
    rw [hobjects] at hitems
    cases hitems
    cases heq
    rfl
  · intro c tr os v next hv hvQ
    obtain ⟨page,tr₁,tr₂,os₁,os₂,rfl,rfl,h₁,h₂⟩ := Returns.of_bind_ok hv
    obtain ⟨hobjects,hprefixes⟩ := listPage_bare hR h₁ (fun x hx => hvQ x (List.mem_append_left _ hx))
    obtain ⟨items,hitems,h₃⟩ := Returns.of_orElse h₂
    obtain ⟨_,_,heq⟩ := h₃.of_ok
    rw [hobjects] at hitems
    cases hitems
    cases heq
    exact Prod.ext rfl (by simp [hprefixes rfl])

theorem servesPage_sole (F : Formats) (lib : Crate) (hR : R.ListsByPrefix) (p : Path) (keyPrefix : String) {delimiter : Option String}
    (hd : delimiter = none ∨ delimiter = some "/") : ∃ tr,
      ServesPage F lib (some keyPrefix) delimiter none tr ((soleObject p).page keyPrefix delimiter none,none) ∧
      ∀ x ∈ tr, (network (Serve R) F).serve (State.empty.store (emptyObject p.raw)) x.1 x.2
        (State.empty.store (emptyObject p.raw)) := by
  have hdecodable : Decodable lib ((soleObject p).page keyPrefix delimiter none) := by
    intro o ho
    have hmem : o ∈ (soleObject p).objects := by
      cases delimiter with
      | none => exact (List.mem_filter.mp ho).1
      | some d => exact (List.mem_filter.mp ho).1
    rw [List.mem_singleton.mp hmem]
    exact ⟨Nat.two_pow_pos 64,p,lib.parse_raw p⟩
  have hlast : ((soleObject p).page keyPrefix delimiter none).next = none := by cases delimiter <;> rfl
  have hserve := serves_sole hR p keyPrefix hd
  have hexec := Bridge.exec_once (fun v => Bridge.jsonResponse (Bridge.listedPage F v)) hserve
  obtain ⟨os,hhandled⟩ := Bridge.once_returns (.list (some keyPrefix) none delimiter)
    (fun v => Bridge.jsonResponse (Bridge.listedPage F v)) (.ok ((soleObject p).page keyPrefix delimiter none))
  have hrequest : Bridge.handleR2 F ((listRequest (listQuery (some keyPrefix) none delimiter)).deliver F) =
      Bridge.once (.list (some keyPrefix) none delimiter)
        (fun v => Bridge.jsonResponse (Bridge.listedPage F v)) := by
    obtain ⟨hbegin,hcursor,hdelimiter⟩ := lookup_listQuery (some keyPrefix) none delimiter
    rw [handleR2_listRequest, hbegin, hcursor, hdelimiter]
  rw [← hrequest] at hexec hhandled
  refine ⟨_,⟨_,os,hhandled,rfl,hlast.symm,hdecodable⟩,?_⟩
  exact List.forall_mem_cons.mpr ⟨.handled hexec,List.forall_mem_singleton.mpr (.received _ _)⟩

theorem root_finds (hR : R.ListsByPrefix) (hcall : call.ListsRoot) {p : Path} {first rest : List Char}
    (hp : Continues a.name p.raw (first ++ '/' :: rest)) (hfirst : '/' ∉ first) :
    ∃ tr os r, Returns (a.prog (store F E lib 2) call) tr os (.ok r) ∧ r.Finds ∧
      ∀ x ∈ tr, (network (Serve R) F).serve (State.empty.store (emptyObject p.raw)) x.1 x.2
        (State.empty.store (emptyObject p.raw)) := by
  refine (listsBy a.root).finds hcall ?_ ?_
  · obtain ⟨tr,hpage,hserve⟩ := servesPage_sole F lib hR p a.name (.inl rfl)
    rw [sole_page ⟨_,hp.symm⟩] at hpage
    obtain ⟨os,hreturns⟩ := listObjects_answered (E := E) hpage
    exact ⟨tr,os,_,hreturns,hserve⟩
  · obtain ⟨tr,hpage,hserve⟩ := servesPage_sole F lib hR p a.name (.inr rfl)
    obtain ⟨os,hreturns⟩ := listLevel_answered (E := E) hpage
    refine ⟨tr,os,_,hreturns,?_,hserve⟩
    simpa [described] using sole_prefixes hp hfirst

end BindingStore

end SlatedbCloudflare
