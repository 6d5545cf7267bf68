import SlatedbCloudflare.Library.Segments
import SlatedbCloudflare.Platform.ObjectStore

/-! # Paths and their segments

`Path::from` splits a string at the slashes, drops empty segments and
percent-encodes the reserved characters of the others. Which characters are
reserved is up to the crate: the percent sign and the controls are.
-/
namespace SlatedbCloudflare.ObjectStore
open Segments

namespace Path

theorem root_valid : "" = "" ∨ ("".toList.splitOn '/').all validSegment = true := .inl rfl

def root : Path := ⟨"",root_valid⟩

def segments (p : Path) : List (List Char) := if p.raw = "" then [] else p.raw.toList.splitOn '/'

/-- `q` lies below `p`, by any number of segments. -/
def Under (p q : Path) : Prop := ∃ s, s ≠ [] ∧ q.segments = p.segments ++ s

/-- `q` is `p` and one segment more. -/
def Child (p q : Path) : Prop := ∃ s, q.segments = p.segments ++ [s]

variable {p q : Path}

theorem Child.under (h : p.Child q) : p.Under q := by
  obtain ⟨s,hs⟩ := h
  exact ⟨[s],List.cons_ne_nil s [],hs⟩

theorem Under.trans {r : Path} (h : p.Under q) (h' : q.Under r) : p.Under r := by
  obtain ⟨s,hs,hq⟩ := h
  obtain ⟨t,_,hr⟩ := h'
  refine ⟨s ++ t,?_,by rw [hr, hq, List.append_assoc]⟩
  simp [hs]

theorem segments_root (h : p.raw = "") : p.segments = [] := if_pos h

theorem segments_of_ne (h : p.raw ≠ "") : p.segments = p.raw.toList.splitOn '/' := if_neg h

theorem segments_ne_nil (h : p.raw ≠ "") : p.segments ≠ [] := by
  rw [segments_of_ne h]
  exact List.splitOn_ne_nil '/' _

theorem raw_ne (h : p.segments ≠ []) : p.raw ≠ "" := fun hraw => h (segments_root hraw)

theorem segments_valid (p : Path) : ∀ s ∈ p.segments, validSegment s = true := by
  intro s hs
  by_cases hraw : p.raw = ""
  · rw [segments_root hraw] at hs
    cases hs
  · have hvalid := p.valid.resolve_left hraw
    rw [segments_of_ne hraw] at hs
    exact List.all_eq_true.mp hvalid s hs

theorem toList_raw (p : Path) : p.raw.toList = ['/'].intercalate p.segments := by
  by_cases hraw : p.raw = ""
  · rw [segments_root hraw, hraw]
    rfl
  · rw [segments_of_ne hraw, List.intercalate_splitOn]

theorem segments_inj (h : p.segments = q.segments) : p = q := by
  have hraw : p.raw = q.raw := by
    rw [← String.toList_inj, toList_raw, toList_raw, h]
  cases p
  cases q
  cases hraw
  rfl

theorem validSegment_slash {s : List Char} (h : validSegment s = true) : '/' ∉ s := by
  intro hmem
  simp only [validSegment, Bool.and_eq_true, List.all_eq_true] at h
  have hc := h.2 '/' hmem
  simp at hc

theorem validSegment_ne_nil {s : List Char} (h : validSegment s = true) : s ≠ [] := by
  rintro rfl
  exact absurd h (by decide)

def join (segs : List (List Char)) (h : ∀ s ∈ segs, validSegment s = true) : Path where
  raw := String.ofList (['/'].intercalate segs)
  valid := by
    rw [String.toList_ofList]
    by_cases hsegs : segs = []
    · subst hsegs
      exact .inl rfl
    · rw [List.splitOn_intercalate '/' (fun s hs => validSegment_slash (h s hs)) hsegs]
      exact .inr (List.all_eq_true.mpr h)

theorem segments_join {segs : List (List Char)} (h : ∀ s ∈ segs, validSegment s = true) :
    (join segs h).segments = segs := by
  have hlist : (join segs h).raw.toList = ['/'].intercalate segs := String.toList_ofList
  by_cases hsegs : segs = []
  · subst hsegs
    rfl
  · have hsplit := List.splitOn_intercalate '/' (fun s hs => validSegment_slash (h s hs)) hsegs
    have hne : (join segs h).raw ≠ "" := by
      intro hraw
      rw [← hlist, hraw] at hsplit
      have hempty : [] ∈ segs := by
        rw [← hsplit]
        exact List.mem_singleton.mpr rfl
      exact validSegment_ne_nil (h _ hempty) rfl
    rw [segments_of_ne hne, hlist, hsplit]

/-- A path lies below another exactly if its text continues the other's, with a
slash unless the other is the root. -/
theorem under_iff : p.Under q ↔ ∃ rest, q.raw.toList = p.raw.toList ++ rest ∧ rest ≠ [] ∧
    (p.raw ≠ "" → rest.head? = some '/') := by
  by_cases hp : p.raw = ""
  · have hqnil : q.raw.toList = [] ↔ q.raw = "" := by simp
    constructor
    · rintro ⟨s,hs,hq⟩
      rw [segments_root hp, List.nil_append] at hq
      refine ⟨q.raw.toList,by simp [hp],?_,fun h => absurd hp h⟩
      rw [ne_eq, hqnil]
      exact raw_ne (by rw [hq]; exact hs)
    · rintro ⟨rest,hq,hrest,_⟩
      refine ⟨q.segments,segments_ne_nil ?_,by rw [segments_root hp, List.nil_append]⟩
      rw [ne_eq, ← hqnil, hq]
      simp [hrest]
  · constructor
    · rintro ⟨s,hs,hq⟩
      have hqne : q.raw ≠ "" := raw_ne (by rw [hq]; simp [hs])
      rw [segments_of_ne hp, segments_of_ne hqne] at hq
      obtain ⟨rest,hrest⟩ := splitOn_continues_iff.mp ⟨s,hs,hq⟩
      exact ⟨_,hrest,List.cons_ne_nil _ _,fun _ => rfl⟩
    · rintro ⟨rest,hq,_,hslash⟩
      obtain ⟨tail,rfl⟩ := List.head?_eq_some_iff.mp (hslash hp)
      have hqne : q.raw ≠ "" := by
        intro h
        rw [h] at hq
        simp at hq
      obtain ⟨s,hs,hsplit⟩ := splitOn_continues_iff.mpr ⟨tail,hq⟩
      refine ⟨s,hs,?_⟩
      rw [segments_of_ne hqne, segments_of_ne hp, hsplit]

/-- What stands before a slash in a path is a path that it lies below. -/
theorem exists_directory {x y : List Char} (h : q.raw.toList = x ++ '/' :: y) :
    ∃ d : Path, d.raw.toList = x ∧ d.raw ≠ "" ∧ d.Under q := by
  have hq : q.raw ≠ "" := by
    intro hraw
    rw [hraw] at h
    simp at h
  have hsegs : q.segments = x.splitOn '/' ++ y.splitOn '/' := by
    rw [segments_of_ne hq, h, List.splitOn_append_cons_self]
  have hvalid : ∀ s ∈ x.splitOn '/', validSegment s = true := by
    intro s hs
    exact segments_valid q s (by rw [hsegs]; exact List.mem_append_left _ hs)
  have hraw : String.ofList x ≠ "" := by
    intro hraw
    have hx : x = [] := by simpa using hraw
    subst hx
    exact validSegment_ne_nil (hvalid [] (by simp)) rfl
  have hpath : String.ofList x = "" ∨ ((String.ofList x).toList.splitOn '/').all validSegment = true := by
    rw [String.toList_ofList]
    exact .inr (List.all_eq_true.mpr hvalid)
  have hbelow : q.segments = (⟨String.ofList x,hpath⟩ : Path).segments ++ y.splitOn '/' := by
    rw [hsegs, segments_of_ne hraw, String.toList_ofList]
  exact ⟨⟨String.ofList x,hpath⟩,String.toList_ofList,hraw,y.splitOn '/',List.splitOn_ne_nil '/' y,hbelow⟩

theorem getLast_raw (p : Path) : p.raw.toList.getLast? ≠ some '/' := by
  intro h
  obtain ⟨x,hx⟩ := List.getLast?_eq_some_iff.mp h
  have hp : p.raw ≠ "" := by
    intro hraw
    rw [hraw] at hx
    simp at hx
  have hmem : [] ∈ p.segments := by
    rw [segments_of_ne hp, hx, List.splitOn_append_cons_self]
    simp
  exact validSegment_ne_nil (segments_valid p [] hmem) rfl

theorem length_segments (h : p.raw ≠ "") : p.segments.length = p.raw.toList.count '/' + 1 := by
  rw [segments_of_ne h, length_splitOn]

theorem Child.length (h : p.Child q) : q.segments.length = p.segments.length + 1 := by
  obtain ⟨s,hs⟩ := h
  rw [hs, List.length_append, List.length_singleton]

theorem child_root_iff (hp : p.raw = "") : p.Child q ↔ q.raw ≠ "" ∧ '/' ∉ q.raw.toList := by
  constructor
  · intro h
    have hlen := h.length
    rw [segments_root hp] at hlen
    have hq : q.raw ≠ "" := raw_ne fun hnil => by simp [hnil] at hlen
    rw [length_segments hq] at hlen
    have hcount : q.raw.toList.count '/' = 0 := by simpa using hlen
    exact ⟨hq,List.count_eq_zero.mp hcount⟩
  · rintro ⟨hq,hslash⟩
    have hlen := length_segments hq
    rw [List.count_eq_zero.mpr hslash] at hlen
    obtain ⟨s,hs⟩ := List.length_eq_one_iff.mp hlen
    exact ⟨s,by rw [hs, segments_root hp, List.nil_append]⟩

end Path

/-- `trim_end_matches('/')` -/
def trimEndSlashes (s : String) : String :=
  String.ofList ((s.toList.reverse.dropWhile (· = '/')).reverse)

theorem trimEndSlashes_directory (d : Path) :
    trimEndSlashes (String.ofList (d.raw.toList ++ ['/'])) = d.raw := by
  have hdrop : d.raw.toList.reverse.dropWhile (· = '/') = d.raw.toList.reverse := by
    cases hrev : d.raw.toList.reverse with
    | nil => rfl
    | cons c cs =>
      have hlast : d.raw.toList.getLast? = some c := by
        rw [← List.head?_reverse, hrev]
        rfl
      have hc : c ≠ '/' := by
        rintro rfl
        exact Path.getLast_raw d hlast
      rw [List.dropWhile_cons_of_neg (by simpa using hc)]
  rw [trimEndSlashes, String.toList_ofList, List.reverse_append, List.reverse_singleton, List.singleton_append,
    List.dropWhile_cons_of_pos (by simp), hdrop, List.reverse_reverse, String.ofList_toList]

def ListResult.extend (all : ListResult) (page : List ObjectMeta × List Path) : ListResult :=
  ⟨all.commonPrefixes ++ page.2,all.objects ++ page.1⟩

theorem ListResult.foldl_extend (pages : List (List ObjectMeta × List Path)) (all : ListResult) :
    pages.foldl ListResult.extend all =
      ⟨all.commonPrefixes ++ pages.flatMap Prod.snd,all.objects ++ pages.flatMap Prod.fst⟩ := by
  induction pages generalizing all with
  | nil => simp
  | cons page pages ih =>
    rw [List.foldl_cons, ih]
    simp [ListResult.extend]

end SlatedbCloudflare.ObjectStore
