import SlatedbCloudflare.Listing.Recursive

/-! # Listing one directory level

R2 looks for the delimiter from the end of the prefix string on, and the adapters
send a prefix without a slash at its end.
-/
namespace SlatedbCloudflare
open Programs Traversals ObjectStore R2 Http

/-- Exactly the objects and the directories one segment below the prefix, each once. -/
structure ListsLevel (b : Bucket) (describe : Path → Object → ObjectMeta) (p : Path)
    (result : ListResult) : Prop where
  once : (result.objects.map ObjectMeta.location).Nodup
  sound : ∀ m ∈ result.objects, p.Child m.location ∧
    ∃ o, b.objects m.location.raw = some o ∧ m = describe m.location o
  complete : ∀ q, p.Child q → b.Stored q → ∃ m ∈ result.objects, m.location = q
  prefixes_once : result.commonPrefixes.Nodup
  prefixes : ∀ d, d ∈ result.commonPrefixes ↔ p.Child d ∧ ∃ q, b.Stored q ∧ d.Under q

/-- The part of a stored key up to a first slash after the prefix, as a path. -/
def Directory (b : Bucket) (keyPrefix : String) (d : Path) : Prop :=
  d.raw ≠ "" ∧ (∃ first, Continues keyPrefix d.raw first ∧ '/' ∉ first) ∧
    ∃ q : Path, b.Stored q ∧ d.Under q

def Direct (b : Bucket) (keyPrefix : String) (q : Path) : Prop :=
  b.Stored q ∧ ∃ rest, Continues keyPrefix q.raw rest ∧ '/' ∉ rest

section Level
variable {b : Bucket} {l : Listing b} {p q d : Path} {describe : Path → Object → ObjectMeta}
  {loc : String → Path} {E : PathEncoding} {keyPrefix : String}

/-- What the adapters make of the pages of a listing with the delimiter. -/
def levelResult (E : PathEncoding) (l : Listing b) (describe : Path → Object → ObjectMeta)
    (loc : String → Path) (keyPrefix : String) : ListResult :=
  ⟨((l.pages keyPrefix (some "/")).flatMap Objects.delimitedPrefixes).map
      (fun text => Path.ofString E (trimEndSlashes text)),
    ((l.pages keyPrefix (some "/")).flatMap Objects.objects).map (fun o => describe (loc o.key) o)⟩

theorem mem_levelObjects {m : ObjectMeta} : m ∈ (levelResult E l describe loc keyPrefix).objects ↔
    ∃ q o, Direct b keyPrefix q ∧ b.objects q.raw = some o ∧ m = describe (loc q.raw) o := by
  rw [levelResult, List.mem_map]
  constructor
  · rintro ⟨o,ho,rfl⟩
    obtain ⟨hstored,hrest⟩ := (l.level keyPrefix o).mp ho
    obtain ⟨q,hq,hqs⟩ := Bucket.path_of_key hstored
    rw [← hq] at hstored hrest
    exact ⟨q,o,⟨hqs,hrest⟩,hstored,by rw [hq]⟩
  · rintro ⟨q,o,⟨_,hrest⟩,ho,rfl⟩
    obtain ⟨hkey,hstored⟩ := Bucket.key_of_stored ho
    refine ⟨o,(l.level keyPrefix o).mpr ⟨hstored,?_⟩,by rw [hkey]⟩
    rw [hkey]
    exact hrest

/-- The delimited prefixes are the directories with a slash after them. -/
theorem delimited_iff {t : String} : t ∈ (l.pages keyPrefix (some "/")).flatMap Objects.delimitedPrefixes ↔
    ∃ d, Directory b keyPrefix d ∧ t = String.ofList (d.raw.toList ++ ['/']) := by
  rw [l.prefixes]
  constructor
  · rintro ⟨key,o,first,rest,ho,hkey,hfirst,ht⟩
    obtain ⟨q,rfl⟩ := b.key_path key o ho
    have hsplit : q.raw.toList = (keyPrefix.toList ++ first) ++ '/' :: rest := by
      rw [List.append_assoc]
      exact hkey
    obtain ⟨d,hd,hne,hunder⟩ := Path.exists_directory hsplit
    refine ⟨d,⟨hne,⟨first,hd,hfirst⟩,q,⟨o,ho⟩,hunder⟩,?_⟩
    rw [hd, ← ht, String.ofList_toList]
  · rintro ⟨d,⟨hne,⟨first,hd,hfirst⟩,q,⟨o,ho⟩,hunder⟩,rfl⟩
    obtain ⟨rest,hrest,_,hslash⟩ := Path.under_iff.mp hunder
    obtain ⟨tail,rfl⟩ := List.head?_eq_some_iff.mp (hslash hne)
    have hd : d.raw.toList = keyPrefix.toList ++ first := hd
    refine ⟨q.raw,o,first,tail,ho,?_,hfirst,by rw [String.toList_ofList, hd]⟩
    rw [Continues, hrest, hd, List.append_assoc]

theorem mem_levelPrefixes {c : Path} : c ∈ (levelResult E l describe loc keyPrefix).commonPrefixes ↔
    ∃ d, Directory b keyPrefix d ∧ c = Path.ofString E d.raw := by
  rw [levelResult, List.mem_map]
  constructor
  · rintro ⟨t,ht,rfl⟩
    obtain ⟨d,hd,rfl⟩ := delimited_iff.mp ht
    exact ⟨d,hd,by rw [trimEndSlashes_directory]⟩
  · rintro ⟨d,hd,rfl⟩
    exact ⟨_,delimited_iff.mpr ⟨d,hd,rfl⟩,by rw [trimEndSlashes_directory]⟩

theorem length_continues {rest : List Char} (hp : p.raw ≠ "") (h : Continues p.raw q.raw rest)
    (hrest : '/' ∉ rest) : q.segments.length = p.segments.length := by
  have hq : q.raw ≠ "" := by
    intro hraw
    rw [Continues, hraw] at h
    simp at h
    exact hp h.1
  rw [Path.length_segments hq, Path.length_segments hp, h, List.count_append, List.count_eq_zero.mpr hrest,
    Nat.add_zero]

theorem length_ofString (d : Path) : (Path.ofString E d.raw).segments.length = d.segments.length := by
  rw [Path.segments_ofString, List.length_map]

/-- Below a proper prefix the result is right only if it is empty. -/
theorem listsLevel_iff_none (hp : p.raw ≠ "") (hloc : ∀ q o, (describe q o).location = q)
    (hlen : ∀ q : Path, (loc q.raw).segments.length = q.segments.length) :
    ListsLevel b describe p (levelResult E l describe loc p.raw) ↔
      ∀ key o rest, b.objects key = some o → ¬ Continues p.raw key rest := by
  constructor
  · intro h key o rest ho hrest
    obtain ⟨q,rfl⟩ := b.key_path key o ho
    by_cases hslash : '/' ∈ rest
    · obtain ⟨first,c,tail,rfl,rfl,hfirst⟩ := exists_first (P := (· = '/')) ⟨'/',hslash,rfl⟩
      have hfirst : '/' ∉ first := fun hmem => hfirst '/' hmem rfl
      have hsplit : q.raw.toList = (p.raw.toList ++ first) ++ '/' :: tail := by
        rw [List.append_assoc]
        exact hrest
      obtain ⟨d,hd,hne,hunder⟩ := Path.exists_directory hsplit
      have hmem : Path.ofString E d.raw ∈ (levelResult E l describe loc p.raw).commonPrefixes :=
        mem_levelPrefixes.mpr ⟨d,⟨hne,⟨first,hd,hfirst⟩,q,⟨o,ho⟩,hunder⟩,rfl⟩
      have hchild := ((h.prefixes _).mp hmem).1.length
      rw [length_ofString, length_continues hp hd hfirst] at hchild
      omega
    · have hmem : describe (loc q.raw) o ∈ (levelResult E l describe loc p.raw).objects :=
        mem_levelObjects.mpr ⟨q,o,⟨⟨o,ho⟩,rest,hrest,hslash⟩,ho,rfl⟩
      have hchild := (h.sound _ hmem).1.length
      rw [hloc, hlen, length_continues hp hrest hslash] at hchild
      omega
  · intro h
    have hunder : ∀ q, p.Under q → ¬ b.Stored q := by
      rintro q hq ⟨o,ho⟩
      obtain ⟨rest,hrest⟩ := Bucket.continues_of_under hq
      exact h _ o rest ho hrest
    have hobjects : (levelResult E l describe loc p.raw).objects = [] := by
      rw [List.eq_nil_iff_forall_not_mem]
      intro m hm
      obtain ⟨q,o,⟨_,rest,hrest,_⟩,ho,_⟩ := mem_levelObjects.mp hm
      exact h _ o rest ho hrest
    have hprefixes : (levelResult E l describe loc p.raw).commonPrefixes = [] := by
      rw [List.eq_nil_iff_forall_not_mem]
      intro c hc
      obtain ⟨d,⟨_,⟨first,hd,_⟩,q,⟨o,ho⟩,hq⟩,_⟩ := mem_levelPrefixes.mp hc
      obtain ⟨rest,hrest,_⟩ := Path.under_iff.mp hq
      refine h _ o (first ++ rest) ho ?_
      rw [Continues, hrest, hd, List.append_assoc]
    constructor
    · rw [hobjects]
      exact List.nodup_nil
    · rw [hobjects]
      exact fun m hm => absurd hm List.not_mem_nil
    · exact fun q hq hs => absurd hs (hunder q hq.under)
    · rw [hprefixes]
      exact List.nodup_nil
    · intro d
      rw [hprefixes]
      constructor
      · exact fun hd => absurd hd List.not_mem_nil
      · rintro ⟨hchild,q,hq,hd⟩
        exact absurd hq (hunder q (hchild.under.trans hd))

theorem direct_root_iff (hp : p.raw = "") (hnone : b.objects "" = none) :
    Direct b p.raw q ↔ b.Stored q ∧ p.Child q := by
  rw [Path.child_root_iff hp, hp]
  constructor
  · rintro ⟨⟨o,ho⟩,rest,hrest,hslash⟩
    have hq : q.raw.toList = rest := hrest
    refine ⟨⟨o,ho⟩,?_,by rw [hq]; exact hslash⟩
    intro hraw
    rw [hraw, hnone] at ho
    cases ho
  · rintro ⟨hq,_,hslash⟩
    exact ⟨hq,q.raw.toList,rfl,hslash⟩

theorem directory_root_iff (hp : p.raw = "") :
    Directory b p.raw d ↔ p.Child d ∧ ∃ q : Path, b.Stored q ∧ d.Under q := by
  rw [Path.child_root_iff hp, hp]
  constructor
  · rintro ⟨hne,⟨first,hd,hfirst⟩,hq⟩
    have hd : d.raw.toList = first := hd
    exact ⟨⟨hne,by rw [hd]; exact hfirst⟩,hq⟩
  · rintro ⟨⟨hne,hslash⟩,hq⟩
    exact ⟨hne,⟨d.raw.toList,rfl,hslash⟩,hq⟩

theorem ListsLevel.noEmptyKey (hp : p.raw = "") (hloc : ∀ q o, (describe q o).location = q)
    (hlen : ∀ q : Path, (loc q.raw).segments.length = q.segments.length)
    (h : ListsLevel b describe p (levelResult E l describe loc p.raw)) : b.objects "" = none := by
  cases ho : b.objects "" with
  | none => rfl
  | some o =>
    have hdirect : Direct b p.raw Path.root := ⟨⟨o,ho⟩,[],by rw [hp]; rfl,List.not_mem_nil⟩
    have hmem : describe (loc "") o ∈ (levelResult E l describe loc p.raw).objects :=
      mem_levelObjects.mpr ⟨Path.root,o,hdirect,ho,rfl⟩
    have hchild := (h.sound _ hmem).1.length
    rw [hloc] at hchild
    have hroot : (loc "").segments.length = 0 := hlen Path.root
    omega

theorem ListsLevel.plainDirectories (hp : p.raw = "")
    (h : ListsLevel b describe p (levelResult E l describe loc p.raw)) :
    ∀ d, Directory b p.raw d → E.Plain d := by
  let S := ((l.pages p.raw (some "/")).flatMap Objects.delimitedPrefixes).map
    (fun t => BindingStore.keyLocation .standard (trimEndSlashes t))
  have hS : ∀ d, d ∈ S ↔ Directory b p.raw d := by
    intro d
    simp only [S, List.mem_map]
    constructor
    · rintro ⟨t,ht,rfl⟩
      obtain ⟨d,hd,rfl⟩ := delimited_iff.mp ht
      rw [trimEndSlashes_directory, BindingStore.keyLocation_raw]
      exact hd
    · intro hd
      exact ⟨_,delimited_iff.mpr ⟨d,hd,rfl⟩,by rw [trimEndSlashes_directory, BindingStore.keyLocation_raw]⟩
  have hgrow : ∀ d ∈ S, ¬ E.Plain d → Path.ofString E d.raw ∈ S ∧ ¬ E.Plain (Path.ofString E d.raw) ∧
      d.size < (Path.ofString E d.raw).size := by
    intro d hd hbad
    have hmem : Path.ofString E d.raw ∈ (levelResult E l describe loc p.raw).commonPrefixes :=
      mem_levelPrefixes.mpr ⟨d,(hS d).mp hd,rfl⟩
    exact ⟨(hS _).mpr ((directory_root_iff hp).mpr ((h.prefixes _).mp hmem)),Path.ofString_reserved hbad⟩
  intro d hd
  exact not_not.mp (no_growth hgrow d ((hS d).mpr hd))

theorem ListsLevel.plainObjects (hp : p.raw = "") (hloc : ∀ q o, (describe q o).location = q)
    (hnone : b.objects "" = none)
    (h : ListsLevel b describe p (levelResult E l describe (Path.ofString E) p.raw)) :
    ∀ q, Direct b p.raw q → E.Plain q := by
  let S := ((l.pages p.raw (some "/")).flatMap Objects.objects).map
    (fun o => BindingStore.keyLocation .standard o.key)
  have hS : ∀ q, q ∈ S ↔ Direct b p.raw q := by
    intro q
    simp only [S, List.mem_map]
    constructor
    · rintro ⟨o,ho,rfl⟩
      obtain ⟨hstored,hrest⟩ := (l.level p.raw o).mp ho
      obtain ⟨q,hq,hqs⟩ := Bucket.path_of_key hstored
      rw [← hq] at hrest
      rw [← hq, BindingStore.keyLocation_raw]
      exact ⟨hqs,hrest⟩
    · rintro ⟨⟨o,ho⟩,hrest⟩
      obtain ⟨hkey,hstored⟩ := Bucket.key_of_stored ho
      refine ⟨o,(l.level p.raw o).mpr ⟨hstored,by rw [hkey]; exact hrest⟩,?_⟩
      rw [hkey, BindingStore.keyLocation_raw]
  have hgrow : ∀ q ∈ S, ¬ E.Plain q → Path.ofString E q.raw ∈ S ∧ ¬ E.Plain (Path.ofString E q.raw) ∧
      q.size < (Path.ofString E q.raw).size := by
    intro q hq hbad
    have hdirect := (hS q).mp hq
    obtain ⟨⟨o,ho⟩,_⟩ := hdirect
    obtain ⟨hchild,o',ho',_⟩ := h.sound _ (mem_levelObjects.mpr ⟨q,o,(hS q).mp hq,ho,rfl⟩)
    rw [hloc] at hchild ho'
    exact ⟨(hS _).mpr ((direct_root_iff hp hnone).mpr ⟨⟨o',ho'⟩,hchild⟩),Path.ofString_reserved hbad⟩
  intro q hq
  exact not_not.mp (no_growth hgrow q ((hS q).mpr hq))

/-- At the root the result is right exactly if no object has the empty key and the
directories are plain, where keys are read back as the paths they were written from. -/
theorem listsLevel_iff_root (hp : p.raw = "") (hloc : ∀ q o, (describe q o).location = q)
    (hlen : ∀ q : Path, (loc q.raw).segments.length = q.segments.length)
    (hraw : ∀ q, Direct b p.raw q → loc q.raw = q) :
    ListsLevel b describe p (levelResult E l describe loc p.raw) ↔
      b.objects "" = none ∧ ∀ d, Directory b p.raw d → E.Plain d := by
  constructor
  · intro h
    exact ⟨h.noEmptyKey hp hloc hlen,h.plainDirectories hp⟩
  · rintro ⟨hnone,hplain⟩
    constructor
    · refine nodup_locations (b := b) hloc (l.once p.raw (some "/")) fun o ho => ?_
      obtain ⟨hstored,hrest⟩ := (l.level p.raw o).mp ho
      obtain ⟨q,hq,hqs⟩ := Bucket.path_of_key hstored
      rw [← hq] at hrest ⊢
      exact ⟨by rw [hq]; exact hstored,by rw [hraw q ⟨hqs,hrest⟩]⟩
    · intro m hm
      obtain ⟨q,o,hdirect,ho,rfl⟩ := mem_levelObjects.mp hm
      rw [hloc, hraw q hdirect]
      exact ⟨((direct_root_iff hp hnone).mp hdirect).2,o,ho,rfl⟩
    · rintro q hchild ⟨o,ho⟩
      have hdirect := (direct_root_iff hp hnone).mpr ⟨⟨o,ho⟩,hchild⟩
      exact ⟨_,mem_levelObjects.mpr ⟨q,o,hdirect,ho,rfl⟩,by rw [hloc, hraw q hdirect]⟩
    · refine (List.nodup_map_iff_inj_on (l.prefixes_once p.raw)).mpr ?_
      intro t ht t' ht' heq
      obtain ⟨d,hd,rfl⟩ := delimited_iff.mp ht
      obtain ⟨d',hd',rfl⟩ := delimited_iff.mp ht'
      rw [trimEndSlashes_directory, trimEndSlashes_directory, Path.ofString_plain (hplain d hd),
        Path.ofString_plain (hplain d' hd')] at heq
      rw [heq]
    · intro c
      rw [mem_levelPrefixes, ← directory_root_iff hp]
      constructor
      · rintro ⟨d,hd,rfl⟩
        rw [Path.ofString_plain (hplain d hd)]
        exact hd
      · intro hc
        exact ⟨c,hc,(Path.ofString_plain (hplain c hc)).symm⟩

end Level

/-- No stored key starts with the prefix. Without a prefix: no key is empty, and no
directory of the first level has a reserved character. -/
def LevelTidy (E : PathEncoding) (b : Bucket) (keyPrefix : String) : Prop :=
  (keyPrefix ≠ "" → ∀ key o rest, b.objects key = some o → ¬ Continues keyPrefix key rest) ∧
    (keyPrefix = "" → b.objects "" = none ∧ ∀ d, Directory b keyPrefix d → E.Plain d)

def PlainDirect (E : PathEncoding) (b : Bucket) (keyPrefix : String) : Prop :=
  keyPrefix = "" → ∀ q, Direct b keyPrefix q → E.Plain q

section Exact
variable {E : PathEncoding} {b : Bucket} {l : Listing b} {p : Path}
  {describe : Path → Object → ObjectMeta} {loc : String → Path}

theorem listsLevel_iff (hloc : ∀ q o, (describe q o).location = q)
    (hlen : ∀ q : Path, (loc q.raw).segments.length = q.segments.length)
    (hraw : p.raw = "" → ∀ q, Direct b p.raw q → loc q.raw = q) :
    ListsLevel b describe p (levelResult E l describe loc p.raw) ↔ LevelTidy E b p.raw := by
  by_cases hp : p.raw = ""
  · rw [listsLevel_iff_root hp hloc hlen (hraw hp)]
    exact ⟨fun h => ⟨fun hne => absurd hp hne,fun _ => h⟩,fun h => h.2 hp⟩
  · rw [listsLevel_iff_none hp hloc hlen]
    exact ⟨fun h => ⟨fun _ => h,fun heq => absurd heq hp⟩,fun h => h.1 hp⟩

theorem listsLevel_iff_plain (hloc : ∀ q o, (describe q o).location = q) :
    ListsLevel b describe p (levelResult E l describe (Path.ofString E) p.raw) ↔
      LevelTidy E b p.raw ∧ PlainDirect E b p.raw := by
  have hiff : PlainDirect E b p.raw →
      (ListsLevel b describe p (levelResult E l describe (Path.ofString E) p.raw) ↔ LevelTidy E b p.raw) :=
    fun hplain => listsLevel_iff hloc length_ofString fun hp q hq => Path.ofString_plain (hplain hp q hq)
  constructor
  · intro h
    have hplain : PlainDirect E b p.raw :=
      fun hp => h.plainObjects hp hloc (h.noEmptyKey hp hloc length_ofString)
    exact ⟨(hiff hplain).mp h,hplain⟩
  · rintro ⟨htidy,hplain⟩
    exact (hiff hplain).mpr htidy

end Exact

/-- The directory listings of the two adapters. -/
def R2Store.LevelExact (E : PathEncoding) (lib : Crate) (b : Bucket) (l : Listing b)
    (keyPrefix : Option Path) : Prop :=
  Yields (fun fuel => (listWithDelimiter E lib fuel keyPrefix).eval l.answers)
    (ListsLevel b (objectMeta lib) (keyPrefix.getD Path.root))

def BindingStore.LevelExact (F : Formats) (E : PathEncoding) (lib : Crate) (b : Bucket)
    (l : Listing b) (keyPrefix : Option Path) : Prop :=
  Yields (fun fuel => (listWithDelimiter F E lib fuel keyPrefix).eval (listAnswers F l))
    (ListsLevel b bridgedMeta (keyPrefix.getD Path.root))

theorem R2Store.levelExact_iff (E : PathEncoding) (lib : Crate) (b : Bucket) (l : Listing b)
    (keyPrefix : Option Path) : R2Store.LevelExact E lib b l keyPrefix ↔
      LevelTidy E b (keyPrefix.getD Path.root).raw ∧ PlainDirect E b (keyPrefix.getD Path.root).raw := by
  have heval := @R2Store.listWithDelimiter_eval E lib b l keyPrefix
  rw [raw_getD] at heval
  exact (yields_iff heval).trans (listsLevel_iff_plain fun _ _ => rfl)

theorem BindingStore.levelExact_iff (F : Formats) (E : PathEncoding) (lib : Crate) (b : Bucket)
    (l : Listing b) (keyPrefix : Option Path) : BindingStore.LevelExact F E lib b l keyPrefix ↔
      LevelTidy E b (keyPrefix.getD Path.root).raw := by
  have heval := @BindingStore.listWithDelimiter_eval F E lib b l keyPrefix
  rw [raw_getD] at heval
  refine (yields_iff heval).trans (listsLevel_iff (fun _ _ => rfl) ?_ ?_)
  · intro q
    rw [keyLocation_raw]
  · intro _ q _
    exact keyLocation_raw q

/-- Both directory listings are right below a proper prefix exactly when there is
nothing to list, and at the root exactly for plain names. -/
theorem level_exact_iff (E : PathEncoding) (F : Formats) (lib : Crate) (b : Bucket) (l : Listing b)
    (keyPrefix : Option Path) :
    (R2Store.LevelExact E lib b l keyPrefix ↔
      LevelTidy E b (keyPrefix.getD Path.root).raw ∧ PlainDirect E b (keyPrefix.getD Path.root).raw) ∧
    (BindingStore.LevelExact F E lib b l keyPrefix ↔ LevelTidy E b (keyPrefix.getD Path.root).raw) :=
  ⟨R2Store.levelExact_iff E lib b l keyPrefix,BindingStore.levelExact_iff F E lib b l keyPrefix⟩

/-- Listing the directory `a` does not yield the object `a/x`. -/
theorem level_misses_object :
    ¬ R2Store.LevelExact .standard .standard (soleObject ⟨"a/x",by decide⟩).bucket
      (soleObject ⟨"a/x",by decide⟩).listing (some ⟨"a",by decide⟩) ∧
    ∀ F : Formats, ¬ BindingStore.LevelExact F .standard .standard (soleObject ⟨"a/x",by decide⟩).bucket
      (soleObject ⟨"a/x",by decide⟩).listing (some ⟨"a",by decide⟩) := by
  have huntidy : ¬ LevelTidy .standard (soleObject ⟨"a/x",by decide⟩).bucket "a" := by
    rintro ⟨h,_⟩
    have hcontinues : "a/x".toList = "a".toList ++ ['/','x'] := by decide
    exact h (by decide) "a/x" _ _ (soleObject_stored ⟨"a/x",by decide⟩) hcontinues
  constructor
  · intro h
    exact huntidy ((R2Store.levelExact_iff _ _ _ _ _).mp h).1
  · intro F h
    exact huntidy ((BindingStore.levelExact_iff F _ _ _ _ _).mp h)

end SlatedbCloudflare
