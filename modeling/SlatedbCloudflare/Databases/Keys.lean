import SlatedbCloudflare.Instance.State
import SlatedbCloudflare.Platform.Http
import SlatedbCloudflare.Platform.PrefixStore

/-! # The keys of a database

Databases share a bucket, each below its own name. A key belongs to a database if
it is the name or continues it with a slash; that it starts with the name does not
make it one of the database's own.
-/
namespace SlatedbCloudflare
open ObjectStore Instance Http

/-- A database under a name that both services accept. -/
structure Database where
  name : String
  valid : ValidDatabaseName name

namespace Database
variable {a b : Database} {key : String} {location : Path}

theorem nameChar (a : Database) {c : Char} (hc : c ∈ a.name.toList) :
    c ≠ '/' ∧ c ≠ '.' ∧ 33 ≤ c.toNat ∧ c.toNat ≤ 126 := nameChar_bounds (a.valid.2.2 c hc)

theorem name_slash (a : Database) : '/' ∉ a.name.toList := fun h => (a.nameChar h).1 rfl

theorem name_isPrintable (a : Database) : isPrintable a.name = true :=
  isPrintable_iff.mpr fun _ hc => (a.nameChar hc).2.2

theorem name_segment (a : Database) : validSegment a.name.toList = true := by
  have hne : a.name.toList ≠ [] := by simpa using a.valid.1
  have hdot : ∀ x : List Char, a.name.toList ≠ '.' :: x := by
    intro x hx
    exact (a.nameChar (by rw [hx]; exact List.mem_cons_self)).2.1 rfl
  have hchars : a.name.toList.all (fun c => c ≠ '/' && 32 ≤ c.toNat && c.toNat ≠ 127) = true := by
    rw [List.all_eq_true]
    intro c hc
    obtain ⟨hslash,_,hlow,hhigh⟩ := a.nameChar hc
    simp only [Bool.and_eq_true, decide_eq_true_eq]
    exact ⟨⟨hslash,by omega⟩,by omega⟩
  simp only [validSegment, hchars, Bool.and_true, Bool.and_eq_true, decide_eq_true_eq]
  exact ⟨⟨hne,hdot _⟩,hdot _⟩

def root (a : Database) : Path where
  raw := a.name
  valid := by
    rw [List.splitOn_eq_singleton a.name_slash]
    exact .inr (by simp [a.name_segment])

def OwnKey (a : Database) (key : String) : Prop :=
  key.toList = a.name.toList ∨ a.name.toList ++ ['/'] <+: key.toList

theorem OwnKey.begins (h : a.OwnKey key) : a.name.toList <+: key.toList := by
  rcases h with h | h
  · exact ⟨[],by rw [h, List.append_nil]⟩
  · exact (List.prefix_append _ _).trans h

theorem toList_fullPath (a : Database) (h : location.raw ≠ "") :
    (PrefixStore.fullPath a.root location).raw.toList = a.name.toList ++ '/' :: location.raw.toList :=
  Path.toList_append a.valid.1 h

theorem fullPath_root (a : Database) (h : location.raw = "") :
    PrefixStore.fullPath a.root location = a.root := Path.append_root h

theorem ownKey_fullPath (a : Database) (location : Path) :
    a.OwnKey (PrefixStore.fullPath a.root location).raw := by
  by_cases h : location.raw = ""
  · rw [fullPath_root a h]
    exact .inl rfl
  · right
    rw [toList_fullPath a h]
    exact ⟨location.raw.toList,by simp⟩

theorem OwnKey.arrives (F : Formats) (h : a.OwnKey key) : a.OwnKey (F.arrives key) := by
  rcases h with h | h
  · left
    rw [String.toList_inj.mp h, arrives_printable F a.name_isPrintable]
  · right
    refine arrives_keeps F ?_ h
    intro c hc
    rcases List.mem_append.mp hc with hc | hc
    · exact isPrintable_iff.mp a.name_isPrintable c hc
    · rw [List.mem_singleton.mp hc]
      decide

/-- A key of one database starts with the name of another only if its own does. -/
theorem OwnKey.begins_with (h : b.OwnKey key) (hbegins : a.name.toList <+: key.toList) :
    a.name.toList <+: b.name.toList := by
  rcases h with h | h
  · rwa [h] at hbegins
  · rcases List.prefix_or_prefix_of_prefix hbegins h with hshort | hlong
    · rcases List.prefix_concat_iff.mp hshort with heq | hname
      · exact absurd (by rw [heq]; simp) a.name_slash
      · exact hname
    · exact absurd (hlong.subset (by simp)) a.name_slash

theorem OwnKey.unique (ha : a.OwnKey key) (hb : b.OwnKey key) : a.name = b.name := by
  have hab := hb.begins_with ha.begins
  have hba := ha.begins_with hb.begins
  exact String.toList_inj.mp (hab.eq_of_length (Nat.le_antisymm hab.length_le hba.length_le))

/-- The keys that matter to a database: its own, and where it lists its root, all
that start with its name. -/
def Sees (a : Database) (rootListed : Prop) (key : String) : Prop :=
  a.OwnKey key ∨ (rootListed ∧ a.name.toList <+: key.toList)

/-- Databases with different names, where the first does not list its root or its name
does not start the other's, have no key in common. -/
theorem sees_other {rootListed : Prop} (hname : a.name ≠ b.name)
    (hroot : ¬ (rootListed ∧ a.name.toList <+: b.name.toList)) (hb : b.OwnKey key) :
    ¬ a.Sees rootListed key := by
  rintro (ha | ⟨hlisted,hbegins⟩)
  · exact hname (ha.unique hb)
  · exact hroot ⟨hlisted,hb.begins_with hbegins⟩

theorem sees_listed {rootListed : Prop} (h : location.raw = "" → rootListed)
    (hkey : (PrefixStore.fullPath a.root location).raw.toList <+: key.toList) : a.Sees rootListed key := by
  by_cases hroot : location.raw = ""
  · rw [fullPath_root a hroot] at hkey
    exact .inr ⟨h hroot,hkey⟩
  · rw [toList_fullPath a hroot, List.append_cons a.name.toList] at hkey
    exact .inl (.inr ((List.prefix_append _ _).trans hkey))

end Database

end SlatedbCloudflare
