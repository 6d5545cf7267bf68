import SlatedbCloudflare.Library.Paging
import SlatedbCloudflare.Library.Traversals
import SlatedbCloudflare.Platform.Path
import SlatedbCloudflare.Platform.R2
import Mathlib.Data.List.Dedup

/-! # How R2 lists a bucket

A listing goes over pages linked by cursors. With a delimiter, a key that has one
after the prefix is reported by its part up to the delimiter.
-/
namespace SlatedbCloudflare.R2
open Paging ObjectStore

/-- The objects stored through an adapter, under the strings of their paths. -/
structure Bucket where
  objects : String → Option Object
  key_eq : ∀ key o, objects key = some o → o.key = key
  key_path : ∀ key o, objects key = some o → ∃ p : Path, p.raw = key
  size_lt : ∀ key o, objects key = some o → o.size < 2 ^ 64

def Bucket.Stored (b : Bucket) (p : Path) : Prop := ∃ o, b.objects p.raw = some o

def Objects.next (v : Objects) : Option String := if v.truncated then v.cursor else none

def Continues (keyPrefix key : String) (rest : List Char) : Prop :=
  key.toList = keyPrefix.toList ++ rest

/-- The pages of every listing of the bucket, by prefix and delimiter, and what they
contain over all. -/
structure Listing (b : Bucket) where
  page : String → Option String → Option String → Objects
  pages : String → Option String → List Objects
  walk : ∀ p d, Walk (fun c x => x = (page p d c,(page p d c).next)) none (pages p d)
  once : ∀ p d, ((pages p d).flatMap Objects.objects).Nodup
  plain : ∀ p o, o ∈ (pages p none).flatMap Objects.objects ↔
    b.objects o.key = some o ∧ ∃ rest, Continues p o.key rest
  level : ∀ p o, o ∈ (pages p (some "/")).flatMap Objects.objects ↔
    b.objects o.key = some o ∧ ∃ rest, Continues p o.key rest ∧ '/' ∉ rest
  prefixes_once : ∀ p, ((pages p (some "/")).flatMap Objects.delimitedPrefixes).Nodup
  prefixes : ∀ p t, t ∈ (pages p (some "/")).flatMap Objects.delimitedPrefixes ↔
    ∃ key o first rest, b.objects key = some o ∧ Continues p key (first ++ '/' :: rest) ∧
      '/' ∉ first ∧ t.toList = p.toList ++ first ++ ['/']

def Listing.answers {b : Bucket} (l : Listing b) : (r : Request) → Reply r
  | .bucket => .ok ()
  | .list p c d => .ok (l.page (p.getD "") d c)
  | _ => .error "not a listing"

namespace Bucket
variable {b : Bucket} {p q : Path} {o : Object}

theorem continues_of_under (h : p.Under q) : ∃ rest, Continues p.raw q.raw rest := by
  obtain ⟨rest,hrest,_⟩ := Path.under_iff.mp h
  exact ⟨rest,hrest⟩

theorem path_of_key (h : b.objects o.key = some o) : ∃ q : Path, q.raw = o.key ∧ b.Stored q := by
  obtain ⟨q,hq⟩ := b.key_path _ o h
  refine ⟨q,hq,o,?_⟩
  rw [hq]
  exact h

theorem key_of_stored (h : b.objects q.raw = some o) : o.key = q.raw ∧ b.objects o.key = some o := by
  have hkey := b.key_eq _ o h
  refine ⟨hkey,?_⟩
  rw [hkey]
  exact h

end Bucket

/-- Finitely many objects, as R2 lists them on a single page. -/
structure Contents where
  objects : List Object
  keys : (objects.map Object.key).Nodup
  paths : ∀ o ∈ objects, ∃ p : Path, p.raw = o.key
  sizes : ∀ o ∈ objects, o.size < 2 ^ 64

namespace Contents
variable (c : Contents)

def find (key : String) : Option Object := c.objects.find? (fun o => o.key = key)

theorem find_iff {key : String} {o : Object} : c.find key = some o ↔ o ∈ c.objects ∧ o.key = key := by
  constructor
  · intro h
    have hkey := List.find?_some h
    exact ⟨List.mem_of_find?_eq_some h,by simpa using hkey⟩
  · rintro ⟨ho,rfl⟩
    cases h : c.find o.key with
    | none =>
      have hnone := List.find?_eq_none.mp h o ho
      simp at hnone
    | some o' =>
      have hkey := List.find?_some h
      have hmem := List.mem_of_find?_eq_some h
      have heq := List.inj_on_of_nodup_map c.keys hmem ho (by simpa using hkey)
      rw [heq]

def bucket : Bucket where
  objects := c.find
  key_eq _ _ h := (c.find_iff.mp h).2
  key_path key o h := by
    obtain ⟨ho,rfl⟩ := c.find_iff.mp h
    exact c.paths o ho
  size_lt _ o h := c.sizes o (c.find_iff.mp h).1

def continuation (keyPrefix key : String) : Option (List Char) :=
  key.toList.dropPrefix? keyPrefix.toList

theorem continuation_iff {keyPrefix key : String} {rest : List Char} :
    continuation keyPrefix key = some rest ↔ Continues keyPrefix key rest := by
  rw [continuation, List.dropPrefix?_eq_some_iff]
  constructor
  · rintro ⟨p,hkey,hp⟩
    rw [beq_iff_eq.mp hp] at hkey
    exact hkey
  · intro h
    exact ⟨_,h,BEq.rfl⟩

/-- The part of a key up to the first slash after the prefix. -/
def delimited (keyPrefix key : String) : Option String :=
  match continuation keyPrefix key with
  | none => none
  | some rest =>
    if '/' ∈ rest then some (String.ofList (keyPrefix.toList ++ rest.takeWhile (· ≠ '/') ++ ['/'])) else none

theorem takeWhile_slash {l : List Char} (h : '/' ∈ l) :
    ∃ rest, l = l.takeWhile (· ≠ '/') ++ '/' :: rest ∧ '/' ∉ l.takeWhile (· ≠ '/') := by
  obtain ⟨pre,x,post,rfl,rfl,hpre⟩ := Traversals.exists_first (P := (· = '/')) ⟨'/',h,rfl⟩
  have htake : (pre ++ '/' :: post).takeWhile (· ≠ '/') = pre := by
    rw [List.takeWhile_append_of_pos (fun c hc => by simpa using hpre c hc), List.takeWhile_cons_of_neg (by simp),
      List.append_nil]
  refine ⟨post,by rw [htake],?_⟩
  rw [htake]
  exact fun hmem => hpre '/' hmem rfl

theorem delimited_iff {keyPrefix key t : String} : delimited keyPrefix key = some t ↔
    ∃ first rest, Continues keyPrefix key (first ++ '/' :: rest) ∧ '/' ∉ first ∧
      t.toList = keyPrefix.toList ++ first ++ ['/'] := by
  constructor
  · intro h
    cases hc : continuation keyPrefix key with
    | none => simp [delimited, hc] at h
    | some rest =>
      by_cases hslash : '/' ∈ rest
      · obtain ⟨tail,hrest,hfirst⟩ := takeWhile_slash hslash
        simp only [delimited, hc, if_pos hslash, Option.some.injEq] at h
        refine ⟨_,tail,?_,hfirst,by rw [← h, String.toList_ofList]⟩
        rw [← hrest]
        exact continuation_iff.mp hc
      · simp [delimited, hc, hslash] at h
  · rintro ⟨first,rest,hcontinues,hfirst,ht⟩
    have hc := continuation_iff.mpr hcontinues
    have htake : (first ++ '/' :: rest).takeWhile (· ≠ '/') = first := by
      rw [List.takeWhile_append_of_pos (fun c hc => by simpa using fun heq : c = '/' => hfirst (heq ▸ hc)),
        List.takeWhile_cons_of_neg (by simp), List.append_nil]
    have hslash : '/' ∈ first ++ '/' :: rest := by simp
    simp only [delimited, hc, if_pos hslash, htake, ← ht, String.ofList_toList]

def page (keyPrefix : String) : Option String → Option String → Objects
  | none, _ => ⟨c.objects.filter (fun o => (continuation keyPrefix o.key).isSome),[],false,none⟩
  | some _, _ =>
    ⟨c.objects.filter (fun o => (continuation keyPrefix o.key).any (fun rest => '/' ∉ rest)),
      (c.objects.filterMap (fun o => delimited keyPrefix o.key)).dedup,false,none⟩

theorem nodup : c.objects.Nodup := c.keys.of_map _

theorem stored_iff {o : Object} : c.bucket.objects o.key = some o ↔ o ∈ c.objects :=
  c.find_iff.trans (and_iff_left rfl)

def listing : Listing c.bucket where
  page := c.page
  pages keyPrefix delimiter := [c.page keyPrefix delimiter none]
  walk keyPrefix delimiter := .last (by cases delimiter <;> rfl)
  once keyPrefix delimiter := by
    cases delimiter <;> simpa [page] using c.nodup.filter _
  plain keyPrefix o := by
    have hstored := c.stored_iff (o := o)
    simp [page, hstored, Option.isSome_iff_exists, continuation_iff]
  level keyPrefix o := by
    have hstored := c.stored_iff (o := o)
    simp [page, hstored, Option.any_eq_true, continuation_iff]
  prefixes_once keyPrefix := by simpa [page] using List.nodup_dedup _
  prefixes keyPrefix t := by
    simp only [page, List.flatMap_cons, List.flatMap_nil, List.append_nil, List.mem_dedup,
      List.mem_filterMap, delimited_iff]
    constructor
    · rintro ⟨o,ho,first,rest,h⟩
      exact ⟨o.key,o,first,rest,c.find_iff.mpr ⟨ho,rfl⟩,h⟩
    · rintro ⟨key,o,first,rest,ho,h⟩
      obtain ⟨hmem,rfl⟩ := c.find_iff.mp ho
      exact ⟨o,hmem,first,rest,h⟩

end Contents

end SlatedbCloudflare.R2
