import SlatedbCloudflare.Databases.RootListing

/-! # Databases that share a bucket

The calls of two databases interleave freely on one bucket. Neither notices the
other by what it does to single objects or lists below its root; listing its root
it finds the objects of every database whose name continues its own.
-/
namespace SlatedbCloudflare
open Programs Messages Isolation ObjectStore R2 Http

variable {Req : Type} {Resp : Req → Type} {Out ι : Type} [DecidableEq ι]

section
variable (V : Service State Req Resp) (S : ℕ → Store Req Resp Out) (a b : Database)
  (own : ι → ObjectStoreCall)

/-- Whatever is called through `b`, and however far the streams are read, the results
of the calls through `a` are those of a run in which nothing is called through `b`. -/
def Isolated : Prop :=
  ∀ (κ : Type) [DecidableEq κ] (other : κ → ObjectStoreCall) (m : ι → ℕ) (n : κ → ℕ) (s : State),
    SameResults V s (fun i => a.prog (S (m i)) (own i)) (fun j => b.prog (S (n j)) (other j))

/-- So are the replies of the bucket to each of their requests. -/
def IsolatedReplies : Prop :=
  ∀ (κ : Type) [DecidableEq κ] (other : κ → ObjectStoreCall) (m : ι → ℕ) (n : κ → ℕ) (s : State),
    SameReplies V s (fun i => a.prog (S (m i)) (own i)) (fun j => b.prog (S (n j)) (other j))

/-- A call through `a` lists its root, and the name of `a` starts that of `b`. -/
def ListsInto : Prop := (∃ i, (own i).ListsRoot) ∧ a.name.toList <+: b.name.toList

end

structure KeepsApart (V : Service State Req Resp) (about lists : String → Req → Prop)
    (within outside : (String → Prop) → Req → Prop) : Prop where
  separates : ∀ K, Separates V.serve (AgreeOn K) (within K) (outside K)
  about_within : ∀ {K : String → Prop} {key r}, about key r → K key → within K r
  about_outside : ∀ {K : String → Prop} {key r}, about key r → ¬ K key → outside K r
  lists_within : ∀ {K : String → Prop} {keyPrefix r}, lists keyPrefix r →
    (∀ key : String, keyPrefix.toList <+: key.toList → K key) → within K r
  lists_outside : ∀ {K : String → Prop} {keyPrefix r}, lists keyPrefix r → outside K r

section Apart
variable {V : Service State Req Resp} {S : ℕ → Store Req Resp Out} {a b : Database}
  {own : ι → ObjectStoreCall} {about lists : String → Req → Prop}
  {within outside : (String → Prop) → Req → Prop} {keyOf : Path → String}

theorem IsolatedReplies.isolated (h : IsolatedReplies V S a b own) : Isolated V S a b own :=
  fun κ _ other m n s => (h κ other m n s).sameResults

theorem KeepsApart.isolated (h : KeepsApart V about lists within outside)
    (hS : ∀ fuel, AsksAbout (S fuel) about lists keyOf)
    (hkey : ∀ (d : Database) location, d.OwnKey (keyOf (PrefixStore.fullPath d.root location)))
    (hname : a.name ≠ b.name) (hroot : ¬ ListsInto a b own) : IsolatedReplies V S a b own := by
  intro κ _ other m n s
  refine (h.separates (a.Sees (∃ i, (own i).ListsRoot))).sameReplies (fun _ _ => rfl) ?_ ?_
  · intro i
    refine (hS (m i)).prog a (own i) ?_ ?_
    · exact fun location r hr => h.about_within hr (.inl (hkey a location))
    · intro location hlisted r hr
      exact h.lists_within hr fun key hbegin => Database.sees_listed (fun hraw => ⟨i,hlisted hraw⟩) hbegin
  · intro j
    refine (hS (n j)).prog b (other j) ?_ fun location _ r hr => h.lists_outside hr
    exact fun location r hr => h.about_outside hr (Database.sees_other hname hroot (hkey b location))

/-- Listing requests keep a bucket without objects so. -/
theorem KeepsApart.root_keeps (h : KeepsApart V about lists within outside) {call : ObjectStoreCall} {fuel : ℕ}
    (hS : AsksAbout (S fuel) about lists keyOf) (hcall : call.ListsRoot) :
    (a.prog (S fuel) call).Asks (Keeps V State.Bare) := by
  have hkeep : ∀ keyPrefix r, lists keyPrefix r → Keeps V State.Bare r :=
    fun keyPrefix r hr s x t hserve hs => (h.separates _).foreign s _ r x t (h.lists_outside hr) hs hserve
  cases call with
  | put | get | delete | copy => exact hcall.elim
  | list p =>
    refine Prog.Asks.bind (Prog.Asks.bind ?_ fun _ => trivial) fun _ => trivial
    exact (hS.list _).imp (hkeep _)
  | listWithDelimiter p =>
    refine Prog.Asks.bind (Prog.Asks.bind ?_ fun _ => trivial) fun _ => trivial
    exact (hS.listWithDelimiter _).imp (hkeep _)

def sibling : Path := ⟨"x",by decide⟩

theorem sibling_continues (h : a.name.toList <+: b.name.toList) : ∃ first,
    Continues a.name (PrefixStore.fullPath b.root sibling).raw (first ++ '/' :: ['x']) ∧ '/' ∉ first := by
  obtain ⟨first,hfirst⟩ := h
  refine ⟨first,?_,fun hmem => b.name_slash (by rw [← hfirst]; exact List.mem_append_right _ hmem)⟩
  rw [Continues, Database.toList_fullPath b (by decide), ← hfirst, List.append_assoc]
  rfl

/-- Where a root listing finds what is put below the other name, and never finds
anything in a bucket without objects, the databases are not isolated. -/
theorem not_isolated (h : KeepsApart V about lists within outside)
    (hS : ∀ fuel, AsksAbout (S fuel) about lists keyOf) (hroot : ListsInto a b own)
    (hwrites : ∀ j : Unit, ∃ (es : List (Event (ι ⊕ Unit) State Req Resp)) (m : ℕ)
      (rest : Prog Req Resp Out Error ObjectStoreResult),
      Alone V (.inr j) State.empty 0 (b.prog (S 2) (.put sibling [] .overwrite)) es
        (State.empty.store (emptyObject (PrefixStore.fullPath b.root sibling).raw)) m rest)
    (hfinds : ∀ (call : ObjectStoreCall) (p : Path) (first rest : List Char), call.ListsRoot →
      Continues a.name p.raw (first ++ '/' :: rest) → '/' ∉ first →
      ∃ tr os r, Returns (a.prog (S 2) call) tr os (.ok r) ∧ r.Finds ∧
        ∀ x ∈ tr, V.serve (State.empty.store (emptyObject p.raw)) x.1 x.2 (State.empty.store (emptyObject p.raw)))
    (hnever : ∀ (call : ObjectStoreCall) tr os r, call.ListsRoot → Returns (a.prog (S 2) call) tr os (.ok r) →
      (∀ x ∈ tr, FromBare V x) → ¬ r.Finds) : ¬ Isolated V S a b own := by
  intro hisolated
  obtain ⟨⟨i,hcall⟩,hname⟩ := hroot
  obtain ⟨first,hcontinues,hfirst⟩ := sibling_continues hname
  obtain ⟨es,m,rest,hwrite⟩ := hwrites ()
  obtain ⟨tr,os,r,hreturns,hr,hserve⟩ := hfinds _ _ _ _ hcall hcontinues hfirst
  obtain ⟨es',hread⟩ := Alone.of_returns (i := (.inl i : ι ⊕ Unit)) hreturns hserve 0
  have hsame := hisolated Unit (fun _ => .put sibling [] .overwrite) (fun _ => 2) (fun _ => 2) State.empty
  have hkeeps : (a.prog (S 2) (own i)).Asks (Keeps V State.Bare) := h.root_keeps (hS 2) hcall
  refine not_sameResults (p := fun i => a.prog (S 2) (own i)) hwrite hread (fun _ _ => rfl) hkeeps ?_ hsame
  exact fun tr os hreturns hQ => hnever _ tr os r hcall hreturns hQ hr

end Apart

section Adapters
variable {R : Rules} {E : PathEncoding} {F : Formats} {lib : Crate}

theorem binding_keepsApart (hR : R.ListsByPrefix) :
    KeepsApart (binding R) Request.About Request.Lists Request.Within Request.Outside where
  separates := serve_separates hR
  about_within := Request.About.within
  about_outside := Request.About.outside
  lists_within := Request.Lists.within
  lists_outside := Request.Lists.outside

theorem network_keepsApart (hR : R.ListsByPrefix) : KeepsApart (BindingStore.network (Serve R) F)
    (fun key => BindingStore.Exchange.Handled F (Request.About key))
    (fun keyPrefix => BindingStore.Exchange.Handled F (Request.Lists keyPrefix))
    (fun K => BindingStore.Exchange.Handled F (Request.Within K))
    (fun K => BindingStore.Exchange.Handled F (Request.Outside K)) where
  separates K := BindingStore.handles_separates (serve_separates hR K)
  about_within h hkey q hq := (h q hq).imp fun _ hr => hr.within hkey
  about_outside h hkey q hq := (h q hq).imp fun _ hr => hr.outside hkey
  lists_within h hkeys q hq := (h q hq).imp fun _ hr => hr.within hkeys
  lists_outside h q hq := (h q hq).imp fun _ hr => hr.outside

theorem R2.puts_empty (key : String) : Does R State.empty (.put key [] .none) (some (emptyObject key))
    (State.empty.store (emptyObject key)) :=
  .inr ⟨R.evaluate_none _,emptyObject key,rfl,rfl,rfl,rfl⟩

theorem R2Store.writes {κ : Type} (b : Database) (location : Path) (n : ℕ) (j : κ) :
    ∃ (es : List (Event κ State Request Reply)) (m : ℕ)
      (rest : Prog Request Reply Perf.Increment Error ObjectStoreResult),
      Alone (binding R) j State.empty 0 (b.prog (store E lib n) (.put location [] .overwrite)) es
        (State.empty.store (emptyObject (PrefixStore.fullPath b.root location).raw)) m rest := by
  have hbucket : Serve R State.empty .bucket (.ok ()) State.empty := .served rfl
  have hput := Serve.served (R2.puts_empty (R := R) (PrefixStore.fullPath b.root location).raw)
  exact ⟨_,_,_,.emit (.call hbucket (.call hput (.refl _ _ _)))⟩

theorem sibling_isPrintable (b : Database) : isPrintable (PrefixStore.fullPath b.root sibling).raw = true := by
  rw [isPrintable_iff, Database.toList_fullPath b (by decide)]
  intro c hc
  rcases List.mem_append.mp hc with hc | hc
  · exact isPrintable_iff.mp b.name_isPrintable c hc
  · have hx : sibling.raw.toList = ['x'] := rfl
    rw [hx, List.mem_cons, List.mem_singleton] at hc
    rcases hc with rfl | rfl
    · decide
    · decide

theorem BindingStore.writes {κ : Type} (b : Database) (n : ℕ) (j : κ) :
    ∃ (es : List (Event κ State Exchange Answer)) (m : ℕ)
      (rest : Prog Exchange Answer (Counter × ℕ) Error ObjectStoreResult),
      Alone (network (Serve R) F) j State.empty 0 (b.prog (store F E lib n) (.put sibling [] .overwrite)) es
        (State.empty.store (emptyObject (PrefixStore.fullPath b.root sibling).raw)) m rest := by
  generalize hlocation : PrefixStore.fullPath b.root sibling = location
  have hprintable : isPrintable location.raw = true := hlocation ▸ sibling_isPrintable b
  have hkey : bridgeKey F location = location.raw := arrives_printable F hprintable
  have hne : bridgeKey F location ≠ "" := by
    intro hempty
    have hlist : (PrefixStore.fullPath b.root sibling).raw.toList = b.name.toList ++ '/' :: ['x'] :=
      Database.toList_fullPath b (by decide)
    rw [hlocation, ← hkey, hempty] at hlist
    simp at hlist
  have hq : putRequest location .overwrite = .ok (request .put location) := rfl
  have hsent : (request .put location).headers.all (fun h => F.isHeaderValue h.2) = true := by
    simp [request, F.isHeaderValue_text _ (isHeaderText_printable hprintable)]
  have hput : Serve R State.empty (.put (bridgeKey F location) [] (.headers (received F (request .put location).headers)))
      (.ok (some (emptyObject location.raw))) (State.empty.store (emptyObject location.raw)) := by
    have hcond : Headers.conditions (received F (request .put location).headers) = [] := by
      simp [request, received, Headers.conditions, conditionalHeaders]
    exact .served (.inr ⟨R.evaluate_noHeader _ _ hcond,_,hkey.symm,rfl,rfl,rfl⟩)
  have hhandled := put_handles hq hne hput
  have hprog : b.prog (store F E lib n) (.put sibling [] .overwrite) =
      (putOpts F location [] .overwrite >>= fun result => pure (ObjectStoreResult.put result)) := by
    rw [← hlocation]
    rfl
  rw [hprog, putOpts_sends [] hq hsent]
  exact ⟨_,_,_,.emit (.call hhandled (.refl _ _ _))⟩

theorem R2Store.not_isolated (hR : R.ListsByPrefix) {a b : Database} {own : ι → ObjectStoreCall}
    (hroot : ListsInto a b own) : ¬ Isolated (binding R) (store E lib) a b own := by
  refine SlatedbCloudflare.not_isolated (binding_keepsApart hR) (fun _ => store_asks) hroot ?_ ?_ ?_
  · exact fun j => writes b sibling 2 _
  · exact fun _ _ _ _ hcall => root_finds hR hcall
  · exact fun _ _ _ _ hcall => root_never hR hcall

theorem BindingStore.not_isolated (hR : R.ListsByPrefix) {a b : Database} {own : ι → ObjectStoreCall}
    (hroot : ListsInto a b own) : ¬ Isolated (network (Serve R) F) (store F E lib) a b own := by
  refine SlatedbCloudflare.not_isolated (network_keepsApart hR) (fun _ => store_asks) hroot ?_ ?_ ?_
  · exact fun j => writes b 2 _
  · exact fun _ _ _ _ hcall => root_finds hR hcall
  · exact fun _ _ _ _ hcall => root_never hR hcall

/-- In both adapters the calls through one database are kept from those through another
exactly if they do not list a root into which the other's name falls. -/
theorem databases_isolated_iff (hR : R.ListsByPrefix) (E : PathEncoding) (F : Formats) (lib : Crate)
    {a b : Database} (hname : a.name ≠ b.name) (own : ι → ObjectStoreCall) :
    (Isolated (binding R) (R2Store.store E lib) a b own ↔ ¬ ListsInto a b own) ∧
    (IsolatedReplies (binding R) (R2Store.store E lib) a b own ↔ ¬ ListsInto a b own) ∧
    (Isolated (BindingStore.network (Serve R) F) (BindingStore.store F E lib) a b own ↔ ¬ ListsInto a b own) ∧
    (IsolatedReplies (BindingStore.network (Serve R) F) (BindingStore.store F E lib) a b own ↔
      ¬ ListsInto a b own) := by
  have hr2 : ¬ ListsInto a b own → IsolatedReplies (binding R) (R2Store.store E lib) a b own :=
    (binding_keepsApart hR).isolated (fun _ => R2Store.store_asks) Database.ownKey_fullPath hname
  have hr2' : Isolated (binding R) (R2Store.store E lib) a b own → ¬ ListsInto a b own :=
    fun h hroot => R2Store.not_isolated hR hroot h
  have hkey : ∀ (d : Database) location,
      d.OwnKey (BindingStore.bridgeKey F (PrefixStore.fullPath d.root location)) :=
    fun d location => (d.ownKey_fullPath location).arrives F
  have hbridge : ¬ ListsInto a b own →
      IsolatedReplies (BindingStore.network (Serve R) F) (BindingStore.store F E lib) a b own :=
    (network_keepsApart hR).isolated (fun _ => BindingStore.store_asks) hkey hname
  have hbridge' : Isolated (BindingStore.network (Serve R) F) (BindingStore.store F E lib) a b own →
      ¬ ListsInto a b own := fun h hroot => BindingStore.not_isolated hR hroot h
  exact ⟨⟨hr2',fun h => (hr2 h).isolated⟩,⟨fun h => hr2' h.isolated,hr2⟩,
    ⟨hbridge',fun h => (hbridge h).isolated⟩,⟨fun h => hbridge' h.isolated,hbridge⟩⟩

end Adapters

/-- Nothing under the database `ab` shows in a listing of the directory `x` of the database `a`. -/
theorem databases_isolated_directory :
    Isolated (binding Rules.onePage) (R2Store.store .standard .standard) ⟨"a",by decide⟩ ⟨"ab",by decide⟩
      (fun _ : Unit => .list (some sibling)) ∧
    Isolated (BindingStore.network (Serve Rules.onePage) .plain) (BindingStore.store .plain .standard .standard)
      ⟨"a",by decide⟩ ⟨"ab",by decide⟩ (fun _ : Unit => .list (some sibling)) := by
  have hroot : ¬ ListsInto ⟨"a",by decide⟩ ⟨"ab",by decide⟩
      (fun _ : Unit => ObjectStoreCall.list (some sibling)) := by
    rintro ⟨⟨_,hlists⟩,_⟩
    have hempty : "x" = "" := hlists
    exact absurd hempty (by decide)
  obtain ⟨hr2,_,hbridge,_⟩ := databases_isolated_iff (R := Rules.onePage) Rules.onePage_listsByPrefix .standard
    .plain .standard (a := ⟨"a",by decide⟩) (b := ⟨"ab",by decide⟩) (by decide)
    (fun _ : Unit => .list (some sibling))
  exact ⟨hr2.mpr hroot,hbridge.mpr hroot⟩

/-- What is put through the database `ab` shows in the root listing of the database `a`. -/
theorem root_listing_shows_sibling :
    ¬ Isolated (binding Rules.onePage) (R2Store.store .standard .standard) ⟨"a",by decide⟩ ⟨"ab",by decide⟩
      (fun _ : Unit => .list none) ∧
    ¬ Isolated (BindingStore.network (Serve Rules.onePage) .plain) (BindingStore.store .plain .standard .standard)
      ⟨"a",by decide⟩ ⟨"ab",by decide⟩ (fun _ : Unit => .list none) := by
  have hroot : ListsInto ⟨"a",by decide⟩ ⟨"ab",by decide⟩ (fun _ : Unit => ObjectStoreCall.list none) :=
    ⟨⟨(),rfl⟩,by decide⟩
  exact ⟨R2Store.not_isolated Rules.onePage_listsByPrefix hroot,
    BindingStore.not_isolated Rules.onePage_listsByPrefix hroot⟩

end SlatedbCloudflare
