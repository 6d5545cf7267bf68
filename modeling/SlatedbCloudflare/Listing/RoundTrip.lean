import SlatedbCloudflare.DurableObject.ConditionalWrites
import SlatedbCloudflare.Listing.Recursive

/-! # Listed locations and the keys they resolve to

`R2Store` writes under the string of a path and rebuilds paths from keys.
-/
namespace SlatedbCloudflare.R2Store
open Programs ObjectStore R2

def Addresses (k : String) (r : Request) : Prop := ∀ key, r.objectKey = some key → key = k

/-- Reads and deletes at the location act on this key. -/
def Resolves (lib : Crate) (location : Path) (k : String) : Prop :=
  (∀ options, (getInner lib location options).Asks (Addresses k)) ∧ (delete location).Asks (Addresses k)

theorem resolves_iff {lib : Crate} {location : Path} {k : String} :
    Resolves lib location k ↔ location.raw = k := by
  constructor
  · rintro ⟨_,hdelete⟩
    obtain ⟨_,hbucket⟩ := hdelete
    exact (hbucket (.ok ())).1 _ rfl
  · rintro rfl
    have hkey : ∀ k, some location.raw = some k → k = location.raw := by
      rintro _ ⟨⟩
      rfl
    constructor
    · intro options
      exact getInner_asks_of lib options nofun (fun _ => nofun) hkey fun _ _ => hkey
    · refine Prog.Asks.bind trivial fun _ => .bind ⟨nofun,fun x => by cases x <;> trivial⟩ fun _ => ?_
      exact Prog.Asks.bind ⟨hkey,fun x => by cases x <;> trivial⟩ fun _ => trivial

/-- The objects that R2 lists come back, one for one, at locations that resolve to
them, and every stored path below the prefix is among those locations. -/
structure ListsBack (lib : Crate) (b : Bucket) (p : Path) (objects : List Object)
    (metas : List ObjectMeta) : Prop where
  recovers : ∀ q, p.Under q → b.Stored q → ∃ m ∈ metas, m.location = q
  resolves : List.Forall₂ (fun o m => Resolves lib m.location o.key) objects metas

section RoundTrip
variable {E : PathEncoding} {lib : Crate} {b : Bucket} {l : Listing b} {p : Path}

theorem ofString_raw_iff {q : Path} : (Path.ofString E q.raw).raw = q.raw ↔ E.Plain q := by
  constructor
  · intro h
    by_contra hbad
    have hlt := (Path.ofString_reserved hbad).2
    have hsegs : (Path.ofString E q.raw).segments = q.segments := by rw [Path.segments, Path.segments, h]
    rw [Path.size, Path.size, hsegs] at hlt
    exact absurd hlt (Nat.lt_irrefl _)
  · intro h
    rw [Path.ofString_plain h]

theorem listsBack_iff : ListsBack lib b p ((l.pages p.raw none).flatMap Objects.objects)
    (listedMetas l (objectMeta lib) (Path.ofString E) p.raw) ↔ PlainFrom E b p.raw := by
  have hresolves : List.Forall₂ (fun o m => Resolves lib m.location o.key)
      ((l.pages p.raw none).flatMap Objects.objects)
      (listedMetas l (objectMeta lib) (Path.ofString E) p.raw) ↔ PlainFrom E b p.raw := by
    rw [listedMetas, List.forall₂_map_right_iff, List.forall₂_same]
    constructor
    · rintro h q ⟨o,ho⟩ hrest
      obtain ⟨hkey,hstored⟩ := Bucket.key_of_stored ho
      have hlisted := h o ((l.plain p.raw o).mpr ⟨hstored,by rw [hkey]; exact hrest⟩)
      rw [resolves_iff, hkey] at hlisted
      exact ofString_raw_iff.mp hlisted
    · intro h o ho
      obtain ⟨hstored,hrest⟩ := (l.plain p.raw o).mp ho
      obtain ⟨q,hq,hqs⟩ := Bucket.path_of_key hstored
      rw [← hq] at hrest ⊢
      exact resolves_iff.mpr (ofString_raw_iff.mpr (h q hqs hrest))
  constructor
  · exact fun h => hresolves.mp h.resolves
  · intro h
    refine ⟨?_,hresolves.mpr h⟩
    rintro q hq ⟨o,ho⟩
    have hrest := Bucket.continues_of_under hq
    exact ⟨_,mem_listedMetas.mpr ⟨q,o,ho,hrest,rfl⟩,Path.ofString_plain (h q ⟨o,ho⟩ hrest)⟩

end RoundTrip

def RoundTrips (E : PathEncoding) (lib : Crate) (b : Bucket) (l : Listing b)
    (keyPrefix : Option Path) : Prop :=
  Yields (fun fuel => (list E lib fuel keyPrefix).eval l.answers)
    (ListsBack lib b (keyPrefix.getD Path.root)
      ((l.pages (keyPrefix.getD Path.root).raw none).flatMap Objects.objects))

theorem roundTrips_iff (E : PathEncoding) (lib : Crate) (b : Bucket) (l : Listing b)
    (keyPrefix : Option Path) :
    RoundTrips E lib b l keyPrefix ↔ PlainFrom E b (keyPrefix.getD Path.root).raw := by
  have heval := @list_eval E lib b l keyPrefix
  rw [raw_getD] at heval
  exact (yields_iff heval).trans listsBack_iff

/-- The path `a%2Fb` comes back as another one. -/
theorem list_encodes_twice :
    ¬ RoundTrips .standard .standard (soleObject ⟨"a%2Fb",by decide⟩).bucket
      (soleObject ⟨"a%2Fb",by decide⟩).listing none := by
  intro h
  have hplain := (roundTrips_iff _ _ _ _ _).mp h ⟨"a%2Fb",by decide⟩ ⟨_,soleObject_stored _⟩ ⟨_,rfl⟩
  have hsegment : ['a','%','2','F','b'] ∈ (⟨"a%2Fb",by decide⟩ : Path).segments := by decide
  have hreserved := hplain _ hsegment '%' (by decide)
  rw [PathEncoding.standard.percent] at hreserved
  cases hreserved

end SlatedbCloudflare.R2Store
