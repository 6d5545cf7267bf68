import SlatedbCloudflare.DurableObject.Listing
import SlatedbCloudflare.Container.Listing

/-! # Listing all objects below a prefix

The adapters hand the prefix to R2 as a string, and R2 compares strings. Which
objects lie below the prefix is a matter of segments.
-/
namespace SlatedbCloudflare
open Programs Traversals ObjectStore R2 Http

/-- Exactly the objects below the prefix, each once. -/
structure ListsUnder (b : Bucket) (describe : Path → Object → ObjectMeta) (p : Path)
    (metas : List ObjectMeta) : Prop where
  once : (metas.map ObjectMeta.location).Nodup
  sound : ∀ m ∈ metas, p.Under m.location ∧
    ∃ o, b.objects m.location.raw = some o ∧ m = describe m.location o
  complete : ∀ q, p.Under q → b.Stored q → ∃ m ∈ metas, m.location = q

/-- A stored key that starts with the prefix string has a slash after it, or, for
the empty prefix, anything. -/
def Tidy (b : Bucket) (keyPrefix : String) : Prop :=
  ∀ key o rest, b.objects key = some o → Continues keyPrefix key rest →
    rest ≠ [] ∧ (keyPrefix ≠ "" → rest.head? = some '/')

/-- No stored key that starts with the prefix string has a reserved character. -/
def PlainFrom (E : PathEncoding) (b : Bucket) (keyPrefix : String) : Prop :=
  ∀ q : Path, b.Stored q → (∃ rest, Continues keyPrefix q.raw rest) → E.Plain q

section Recursive
variable {b : Bucket} {l : Listing b} {p : Path} {describe : Path → Object → ObjectMeta}
  {loc : String → Path} {metas : List ObjectMeta}

theorem tidy_iff : Tidy b p.raw ↔
    ∀ q : Path, b.Stored q → (∃ rest, Continues p.raw q.raw rest) → p.Under q := by
  constructor
  · rintro h q ⟨o,ho⟩ ⟨rest,hrest⟩
    exact Path.under_iff.mpr ⟨rest,hrest,h _ o rest ho hrest⟩
  · intro h key o rest ho hrest
    obtain ⟨q,rfl⟩ := b.key_path key o ho
    obtain ⟨rest',heq,hslash⟩ := Path.under_iff.mp (h q ⟨o,ho⟩ ⟨rest,hrest⟩)
    have hsame : rest = rest' := List.append_cancel_left (hrest.symm.trans heq)
    rw [hsame]
    exact hslash

def listedMetas (l : Listing b) (describe : Path → Object → ObjectMeta) (loc : String → Path)
    (keyPrefix : String) : List ObjectMeta :=
  ((l.pages keyPrefix none).flatMap Objects.objects).map (fun o => describe (loc o.key) o)

theorem mem_listedMetas {m : ObjectMeta} {keyPrefix : String} :
    m ∈ listedMetas l describe loc keyPrefix ↔ ∃ q : Path, ∃ o, b.objects q.raw = some o ∧
      (∃ rest, Continues keyPrefix q.raw rest) ∧ m = describe (loc q.raw) o := by
  rw [listedMetas, List.mem_map]
  constructor
  · rintro ⟨o,ho,rfl⟩
    obtain ⟨hstored,hrest⟩ := (l.plain keyPrefix o).mp ho
    obtain ⟨q,hq,_⟩ := Bucket.path_of_key hstored
    rw [← hq] at hstored hrest
    exact ⟨q,o,hstored,hrest,by rw [hq]⟩
  · rintro ⟨q,o,ho,hrest,rfl⟩
    obtain ⟨hkey,hstored⟩ := Bucket.key_of_stored ho
    refine ⟨o,(l.plain keyPrefix o).mpr ⟨hstored,?_⟩,by rw [hkey]⟩
    rw [hkey]
    exact hrest

theorem nodup_locations {objects : List Object} (hloc : ∀ q o, (describe q o).location = q)
    (hnodup : objects.Nodup)
    (h : ∀ o ∈ objects, b.objects o.key = some o ∧ (loc o.key).raw = o.key) :
    ((objects.map (fun o => describe (loc o.key) o)).map ObjectMeta.location).Nodup := by
  rw [List.map_map]
  refine (List.nodup_map_iff_inj_on hnodup).mpr ?_
  intro o ho o' ho' heq
  obtain ⟨hstored,hraw⟩ := h o ho
  obtain ⟨hstored',hraw'⟩ := h o' ho'
  simp only [Function.comp_apply, hloc] at heq
  rw [← hraw, heq, hraw', hstored'] at hstored
  cases hstored
  rfl

/-- Where keys are read back as the paths they were written from, the listing is
right exactly if the layout is tidy. -/
theorem listsUnder_iff_tidy (hloc : ∀ q o, (describe q o).location = q)
    (hraw : ∀ q : Path, b.Stored q → (∃ rest, Continues p.raw q.raw rest) → loc q.raw = q) :
    ListsUnder b describe p (listedMetas l describe loc p.raw) ↔ Tidy b p.raw := by
  rw [tidy_iff]
  constructor
  · rintro h q ⟨o,ho⟩ hrest
    have hmem : describe (loc q.raw) o ∈ listedMetas l describe loc p.raw :=
      mem_listedMetas.mpr ⟨q,o,ho,hrest,rfl⟩
    have hunder := (h.sound _ hmem).1
    rwa [hloc, hraw q ⟨o,ho⟩ hrest] at hunder
  · intro h
    constructor
    · refine nodup_locations (b := b) hloc (l.once p.raw none) fun o ho => ?_
      obtain ⟨hstored,hrest⟩ := (l.plain p.raw o).mp ho
      obtain ⟨q,hq,hqs⟩ := Bucket.path_of_key hstored
      rw [← hq] at hrest ⊢
      exact ⟨by rw [hq]; exact hstored,by rw [hraw q hqs hrest]⟩
    · intro m hm
      obtain ⟨q,o,ho,hrest,rfl⟩ := mem_listedMetas.mp hm
      rw [hloc, hraw q ⟨o,ho⟩ hrest]
      exact ⟨h q ⟨o,ho⟩ hrest,o,ho,rfl⟩
    · rintro q hq ⟨o,ho⟩
      have hrest := Bucket.continues_of_under hq
      exact ⟨_,mem_listedMetas.mpr ⟨q,o,ho,hrest,rfl⟩,by rw [hloc, hraw q ⟨o,ho⟩ hrest]⟩

theorem ListsUnder.plainFrom {E : PathEncoding} (hloc : ∀ q o, (describe q o).location = q)
    (h : ListsUnder b describe p (listedMetas l describe (Path.ofString E) p.raw)) :
    PlainFrom E b p.raw := by
  -- a reserved character makes the location a longer one, which must be stored as well
  let S := ((l.pages p.raw none).flatMap Objects.objects).map (fun o => BindingStore.keyLocation .standard o.key)
  have hS : ∀ q : Path, q ∈ S ↔ b.Stored q ∧ ∃ rest, Continues p.raw q.raw rest := by
    intro q
    simp only [S, List.mem_map]
    constructor
    · rintro ⟨o,ho,rfl⟩
      obtain ⟨hstored,hrest⟩ := (l.plain p.raw o).mp ho
      obtain ⟨q,hq,hqs⟩ := Bucket.path_of_key hstored
      rw [← hq] at hrest
      rw [← hq, BindingStore.keyLocation_raw]
      exact ⟨hqs,hrest⟩
    · rintro ⟨⟨o,ho⟩,hrest⟩
      obtain ⟨hkey,hstored⟩ := Bucket.key_of_stored ho
      refine ⟨o,(l.plain p.raw o).mpr ⟨hstored,by rw [hkey]; exact hrest⟩,?_⟩
      rw [hkey, BindingStore.keyLocation_raw]
  have hgrow : ∀ q ∈ S, ¬ E.Plain q →
      Path.ofString E q.raw ∈ S ∧ ¬ E.Plain (Path.ofString E q.raw) ∧
        q.size < (Path.ofString E q.raw).size := by
    intro q hq hbad
    obtain ⟨⟨o,ho⟩,hrest⟩ := (hS q).mp hq
    obtain ⟨hunder,o',ho',_⟩ := h.sound _ (mem_listedMetas.mpr ⟨q,o,ho,hrest,rfl⟩)
    rw [hloc] at hunder ho'
    exact ⟨(hS _).mpr ⟨⟨o',ho'⟩,Bucket.continues_of_under hunder⟩,Path.ofString_reserved hbad⟩
  intro q hq hrest
  have hplain := no_growth hgrow q ((hS q).mpr ⟨hq,hrest⟩)
  exact not_not.mp hplain

theorem listsUnder_iff_plain {E : PathEncoding} (hloc : ∀ q o, (describe q o).location = q) :
    ListsUnder b describe p (listedMetas l describe (Path.ofString E) p.raw) ↔
      Tidy b p.raw ∧ PlainFrom E b p.raw := by
  have hraw : PlainFrom E b p.raw → ∀ q : Path, b.Stored q → (∃ rest, Continues p.raw q.raw rest) →
      Path.ofString E q.raw = q := fun hplain q hq hrest => Path.ofString_plain (hplain q hq hrest)
  constructor
  · intro h
    have hplain := h.plainFrom hloc
    exact ⟨(listsUnder_iff_tidy hloc (hraw hplain)).mp h,hplain⟩
  · rintro ⟨htidy,hplain⟩
    exact (listsUnder_iff_tidy hloc (hraw hplain)).mpr htidy

end Recursive

def Yields {α : Type} (run : ℕ → Except Error (Option α)) (P : α → Prop) : Prop :=
  ∃ a, (∃ n, ∀ fuel, n ≤ fuel → run fuel = .ok (some a)) ∧ P a

theorem yields_iff {α : Type} {run : ℕ → Except Error (Option α)} {P : α → Prop} {a : α}
    (h : ∃ n, ∀ fuel, n ≤ fuel → run fuel = .ok (some a)) : Yields run P ↔ P a := by
  constructor
  · rintro ⟨a',⟨n,hn⟩,ha'⟩
    obtain ⟨n',hn'⟩ := h
    have heq := (hn (max n n') (by omega)).symm.trans (hn' (max n n') (by omega))
    cases heq
    exact ha'
  · intro ha
    exact ⟨a,h,ha⟩

theorem raw_getD (keyPrefix : Option Path) :
    (keyPrefix.map Path.raw).getD "" = (keyPrefix.getD Path.root).raw := by
  cases keyPrefix <;> rfl

/-- The recursive listings of the two adapters. -/
def R2Store.ListExact (E : PathEncoding) (lib : Crate) (b : Bucket) (l : Listing b)
    (keyPrefix : Option Path) : Prop :=
  Yields (fun fuel => (list E lib fuel keyPrefix).eval l.answers)
    (ListsUnder b (objectMeta lib) (keyPrefix.getD Path.root))

def BindingStore.ListExact (F : Formats) (lib : Crate) (b : Bucket) (l : Listing b)
    (keyPrefix : Option Path) : Prop :=
  Yields (fun fuel => (list F lib fuel keyPrefix).eval (listAnswers F l))
    (ListsUnder b bridgedMeta (keyPrefix.getD Path.root))

theorem R2Store.listExact_iff (E : PathEncoding) (lib : Crate) (b : Bucket) (l : Listing b)
    (keyPrefix : Option Path) : R2Store.ListExact E lib b l keyPrefix ↔
      Tidy b (keyPrefix.getD Path.root).raw ∧ PlainFrom E b (keyPrefix.getD Path.root).raw := by
  have heval := @R2Store.list_eval E lib b l keyPrefix
  rw [raw_getD] at heval
  exact (yields_iff heval).trans (listsUnder_iff_plain fun _ _ => rfl)

theorem BindingStore.listExact_iff (F : Formats) (lib : Crate) (b : Bucket) (l : Listing b)
    (keyPrefix : Option Path) : BindingStore.ListExact F lib b l keyPrefix ↔
      Tidy b (keyPrefix.getD Path.root).raw := by
  have heval := @BindingStore.list_eval F lib b l keyPrefix
  rw [raw_getD] at heval
  exact (yields_iff heval).trans
    (listsUnder_iff_tidy (fun _ _ => rfl) fun q _ _ => keyLocation_raw q)

/-- Both recursive listings are right exactly for tidy layouts, and that of the
Durable Object only for plain ones. -/
theorem list_exact_iff (E : PathEncoding) (F : Formats) (lib : Crate) (b : Bucket) (l : Listing b)
    (keyPrefix : Option Path) :
    (R2Store.ListExact E lib b l keyPrefix ↔
      Tidy b (keyPrefix.getD Path.root).raw ∧ PlainFrom E b (keyPrefix.getD Path.root).raw) ∧
    (BindingStore.ListExact F lib b l keyPrefix ↔ Tidy b (keyPrefix.getD Path.root).raw) :=
  ⟨R2Store.listExact_iff E lib b l keyPrefix,BindingStore.listExact_iff F lib b l keyPrefix⟩

def emptyObject (key : String) : Object := ⟨key,"1",⟨"e",by decide⟩,0,[]⟩

def soleObject (p : Path) : Contents where
  objects := [emptyObject p.raw]
  keys := List.nodup_singleton _
  paths o ho := ⟨p,by rw [List.mem_singleton.mp ho]; rfl⟩
  sizes o ho := by
    rw [List.mem_singleton.mp ho]
    exact Nat.two_pow_pos 64

theorem soleObject_stored (p : Path) : (soleObject p).bucket.objects p.raw = some (emptyObject p.raw) :=
  (soleObject p).stored_iff.mpr (List.mem_singleton.mpr rfl)

/-- Listing `a` yields `ab/x`. -/
theorem list_yields_sibling :
    ¬ R2Store.ListExact .standard .standard (soleObject ⟨"ab/x",by decide⟩).bucket
      (soleObject ⟨"ab/x",by decide⟩).listing (some ⟨"a",by decide⟩) ∧
    ∀ F : Formats, ¬ BindingStore.ListExact F .standard (soleObject ⟨"ab/x",by decide⟩).bucket
      (soleObject ⟨"ab/x",by decide⟩).listing (some ⟨"a",by decide⟩) := by
  have huntidy : ¬ Tidy (soleObject ⟨"ab/x",by decide⟩).bucket "a" := by
    intro h
    have hcontinues : "ab/x".toList = "a".toList ++ ['b','/','x'] := by decide
    obtain ⟨_,hslash⟩ := h "ab/x" _ _ (soleObject_stored ⟨"ab/x",by decide⟩) hcontinues
    exact absurd (hslash (by decide)) (by decide)
  constructor
  · intro h
    exact huntidy ((R2Store.listExact_iff _ _ _ _ _).mp h).1
  · intro F h
    exact huntidy ((BindingStore.listExact_iff F _ _ _ _).mp h)

end SlatedbCloudflare
