import SlatedbCloudflare.Platform.R2
import SlatedbCloudflare.Platform.Utf8

/-! # HTTP between the container and its Worker

Messages are modelled with the headers and the body that the two programs read
and write. A body is kept in the form in which it was produced; reading it in
another form goes through `Formats`, the library functions of either side.
-/
namespace SlatedbCloudflare.Http
open ObjectStore R2

inductive Method
  | get
  | head
  | put
  | post
  | delete
  deriving DecidableEq

inductive Json
  | num (n : ℕ)
  | str (s : String)
  | arr (items : List Json)
  | obj (fields : List (String × Json))

namespace Json

def field (name : String) : Json → Option Json
  | .obj fields => fields.lookup name
  | _ => none

def asNum : Json → Option ℕ
  | .num n => some n
  | _ => none

def asStr : Json → Option String
  | .str s => some s
  | _ => none

def asArr : Json → Option (List Json)
  | .arr items => some items
  | _ => none

end Json

inductive Body
  | bytes (b : Bytes)
  | text (s : String)
  | json (j : Json)

structure HttpRequest where
  method : Method
  headers : Headers
  query : List (String × String)
  body : Body

structure HttpResponse where
  status : ℕ
  headers : Headers
  body : Body

/-- Visible ASCII, spaces and tabs: the header values that can be read as text. -/
def isHeaderChar (c : Char) : Bool := (32 ≤ c.toNat && c.toNat ≤ 126) || c = '\t'

def isHeaderText (value : String) : Bool := value.toList.all isHeaderChar

def isPrintable (value : String) : Bool := value.toList.all (fun c => 33 ≤ c.toNat && c.toNat ≤ 126)

def isBlank (c : Char) : Bool := c = ' ' || c = '\t'

/-- A received header value has lost its leading and trailing blanks. -/
def trimBlanks (value : String) : String :=
  String.ofList ((value.toList.dropWhile isBlank).reverse.dropWhile isBlank).reverse

/-- The formatting and parsing functions of the two runtimes: dates, numbers, JSON
documents, header values and UTF-8 text. `toRfc2822` has no value where it panics,
`number` is the integer value of JavaScript's `Number`, if it has one, and
`headerChar` is what the receiver of a header value reads for a character of it. -/
structure Formats where
  toISOString : ℕ → String
  toRfc2822 : DateTime → Option String
  isHeaderValue : String → Bool
  headerChar : Char → List Char
  parseDate : String → Except String DateTime
  number : Option String → Option ℕ
  renderJson : Json → Bytes
  parseJson : Bytes → Except String Json
  encodeText : String → Bytes
  decodeText : Bytes → String
  parseDate_toISOString : ∀ ms, parseDate (toISOString ms) = .ok (ms * 1000000)
  number_toString : ∀ n, number (some (toString n)) = some n
  isHeaderValue_text : ∀ value, isHeaderText value = true → isHeaderValue value = true
  headerChar_text : ∀ c, isHeaderChar c = true → headerChar c = [c]

/-- RFC 2822 is defined on the years 0 to 9999. -/
def HasFourDigitYear (date : DateTime) : Prop :=
  -62167219200 * 10 ^ 9 ≤ date ∧ date < 253402300800 * 10 ^ 9

instance (date : DateTime) : Decidable (HasFourDigitYear date) := instDecidableAnd

namespace Formats

/-- A header value as its receiver reads it. -/
def arrives (F : Formats) (value : String) : String :=
  String.ofList ((trimBlanks value).toList.flatMap F.headerChar)

def decimal (s : String) : Option ℕ :=
  if s.toList.all Char.isDigit then some (Nat.ofDigitChars 10 s.toList 0) else none

theorem decimal_toString (n : ℕ) : decimal (toString n) = some n := by
  have hdigits : (toString n).toList = Nat.toDigits 10 n := by simp
  have hall : (Nat.toDigits 10 n).all Char.isDigit = true :=
    List.all_eq_true.mpr fun c hc => Nat.isDigit_of_mem_toDigits (by decide) (by decide) hc
  rw [decimal, hdigits, if_pos hall, Nat.ofDigitChars_ten_toDigits]

/-- Dates are written in milliseconds, and documents are not read. Bytes from 128 on
may stand in a header value, and are read as UTF-8. -/
def plain : Formats where
  toISOString ms := toString ms
  toRfc2822 date := if HasFourDigitYear date then some (toString date) else none
  isHeaderValue value := value.toList.all (fun c => isHeaderChar c || 128 ≤ c.toNat)
  headerChar c := [c]
  parseDate s := match decimal s with
    | some ms => .ok (ms * 1000000)
    | none => .error "invalid date"
  number s := decimal (s.getD "")
  renderJson _ := []
  parseJson _ := .error "invalid document"
  encodeText := Utf8.asBytes
  decodeText := Utf8.fromUtf8Lossy
  parseDate_toISOString ms := by rw [decimal_toString]
  number_toString := decimal_toString
  isHeaderValue_text value h := by
    rw [isHeaderText, List.all_eq_true] at h
    rw [List.all_eq_true]
    exact fun c hc => by rw [h c hc, Bool.true_or]
  headerChar_text _ _ := rfl

/-- The same with header values held to text. -/
def visible : Formats := { plain with isHeaderValue := isHeaderText, isHeaderValue_text := fun _ h => h }

end Formats

section Headers
variable (F : Formats)

def received (headers : Headers) : Headers := headers.map (fun h => (h.1,F.arrives h.2))

def HttpRequest.deliver (r : HttpRequest) : HttpRequest := { r with headers := received F r.headers }
def HttpResponse.deliver (r : HttpResponse) : HttpResponse := { r with headers := received F r.headers }

end Headers

def HttpRequest.header (r : HttpRequest) (name : String) : Option String := r.headers.lookup name
def HttpResponse.header (r : HttpResponse) (name : String) : Option String := r.headers.lookup name

section Bodies
variable (F : Formats)

def Body.arrayBuffer : Body → Bytes
  | .bytes b => b
  | .text s => F.encodeText s
  | .json j => F.renderJson j

def Body.toJson : Body → Except String Json
  | .json j => .ok j
  | .bytes b => F.parseJson b
  | .text s => F.parseJson (F.encodeText s)

def Body.toText : Body → String
  | .text s => s
  | .bytes b => F.decodeText b
  | .json j => F.decodeText (F.renderJson j)

end Bodies

theorem isPrintable_iff {s : String} : isPrintable s = true ↔ ∀ c ∈ s.toList, 33 ≤ c.toNat ∧ c.toNat ≤ 126 := by
  simp [isPrintable]

theorem isPrintable_quoted (t : ETag) : isPrintable t.quoted = true := by
  have hlist : t.quoted.toList = '"' :: t.val.toList ++ ['"'] := by simp [ETag.quoted]
  have hquote : 33 ≤ '"'.toNat ∧ '"'.toNat ≤ 126 := by decide
  rw [isPrintable_iff, hlist]
  intro c hc
  simp only [List.cons_append, List.mem_cons, List.mem_append, List.not_mem_nil, or_false] at hc
  rcases hc with rfl | hc | rfl
  · exact hquote
  · have hv := List.all_eq_true.mp t.valid c hc
    simp only [isETagChar, Bool.and_eq_true, decide_eq_true_eq] at hv
    exact hv.1
  · exact hquote

theorem printable_digits {n : ℕ} {c : Char} (hc : c ∈ Nat.toDigits 10 n) : 33 ≤ c.toNat ∧ c.toNat ≤ 126 := by
  have hdigit : c.isDigit = true := Nat.isDigit_of_mem_toDigits (b := 10) (by decide) (by decide) hc
  simp only [Char.isDigit, Bool.and_eq_true, decide_eq_true_eq] at hdigit
  obtain ⟨hlow,hhigh⟩ := hdigit
  have hlow' : 48 ≤ c.toNat := hlow
  have hhigh' : c.toNat ≤ 57 := hhigh
  omega

theorem isPrintable_toString (n : ℕ) : isPrintable (toString n) = true := by
  have hdigits : (toString n).toList = Nat.toDigits 10 n := by simp
  rw [isPrintable_iff, hdigits]
  exact fun c hc => printable_digits hc

theorem isHeaderChar_printable {c : Char} (h : 33 ≤ c.toNat ∧ c.toNat ≤ 126) : isHeaderChar c = true := by
  simp only [isHeaderChar, Bool.or_eq_true, Bool.and_eq_true, decide_eq_true_eq]
  omega

theorem isBlank_printable {c : Char} (h : 33 ≤ c.toNat ∧ c.toNat ≤ 126) : isBlank c = false := by
  simp only [isBlank, Bool.or_eq_false_iff, decide_eq_false_iff_not]
  constructor
  · rintro rfl
    exact absurd h (by decide)
  · rintro rfl
    exact absurd h (by decide)

theorem isHeaderText_printable {s : String} (h : isPrintable s = true) : isHeaderText s = true :=
  List.all_eq_true.mpr fun c hc => isHeaderChar_printable (isPrintable_iff.mp h c hc)

theorem trimBlanks_eq {s : String} (h : ∀ c ∈ s.toList, isBlank c = false) : trimBlanks s = s := by
  have hdrop : ∀ l : List Char, (∀ c ∈ l, isBlank c = false) → l.dropWhile isBlank = l := by
    intro l hl
    cases l with
    | nil => rfl
    | cons c l => rw [List.dropWhile_cons_of_neg (by simp [hl c])]
  have hrev : (s.toList.reverse).dropWhile isBlank = s.toList.reverse :=
    hdrop _ fun c hc => h c (List.mem_reverse.mp hc)
  rw [trimBlanks, hdrop _ h, hrev, List.reverse_reverse, String.ofList_toList]

theorem trimBlanks_printable {s : String} (h : isPrintable s = true) : trimBlanks s = s :=
  trimBlanks_eq fun c hc => isBlank_printable (isPrintable_iff.mp h c hc)

section Arrivals
variable (F : Formats)

theorem flatMap_headerChar {l : List Char} (h : ∀ c ∈ l, isHeaderChar c = true) : l.flatMap F.headerChar = l := by
  induction l with
  | nil => rfl
  | cons c l ih =>
    obtain ⟨hc,hl⟩ := List.forall_mem_cons.mp h
    rw [List.flatMap_cons, F.headerChar_text c hc, ih hl, List.singleton_append]

theorem mem_trimBlanks {s : String} {c : Char} (h : c ∈ (trimBlanks s).toList) : c ∈ s.toList := by
  rw [trimBlanks, String.toList_ofList, List.mem_reverse] at h
  have hrev := (List.dropWhile_suffix isBlank).mem h
  exact (List.dropWhile_suffix isBlank).mem (List.mem_reverse.mp hrev)

theorem arrives_text {s : String} (h : isHeaderText s = true) : F.arrives s = trimBlanks s := by
  have hall := List.all_eq_true.mp h
  rw [Formats.arrives, flatMap_headerChar F fun c hc => hall c (mem_trimBlanks hc), String.ofList_toList]

theorem arrives_printable {s : String} (h : isPrintable s = true) : F.arrives s = s := by
  rw [arrives_text F (isHeaderText_printable h), trimBlanks_printable h]

theorem arrives_quoted (t : ETag) : F.arrives t.quoted = t.quoted := arrives_printable F (isPrintable_quoted t)

theorem arrives_toString (n : ℕ) : F.arrives (toString n) = toString n :=
  arrives_printable F (isPrintable_toString n)

theorem trimBlanks_keeps {s : String} {x : List Char} (hx : ∀ c ∈ x, isBlank c = false)
    (h : x <+: s.toList) : x <+: (trimBlanks s).toList := by
  obtain ⟨y,hy⟩ := h
  cases x with
  | nil => exact List.nil_prefix
  | cons c x =>
    have hfirst : s.toList.dropWhile isBlank = s.toList := by
      rw [← hy, List.cons_append, List.dropWhile_cons_of_neg (by simp [hx c])]
    have hlast : (c :: x).reverse.dropWhile isBlank = (c :: x).reverse := by
      cases hrev : (c :: x).reverse with
      | nil => rfl
      | cons d z =>
        have hd : isBlank d = false := by
          apply hx d
          rw [← List.mem_reverse, hrev]
          exact List.mem_cons_self
        rw [List.dropWhile_cons_of_neg (by simp [hd])]
    rw [trimBlanks, String.toList_ofList, hfirst, ← hy, List.reverse_append, List.dropWhile_append, hlast]
    split_ifs
    · exact ⟨[],by rw [List.reverse_reverse, List.append_nil]⟩
    · rw [List.reverse_append, List.reverse_reverse]
      exact List.prefix_append _ _

theorem arrives_keeps {s : String} {x : List Char} (hx : ∀ c ∈ x, 33 ≤ c.toNat ∧ c.toNat ≤ 126)
    (h : x <+: s.toList) : x <+: (F.arrives s).toList := by
  obtain ⟨y,hy⟩ := trimBlanks_keeps (fun c hc => isBlank_printable (hx c hc)) h
  rw [Formats.arrives, String.toList_ofList, ← hy, List.flatMap_append,
    flatMap_headerChar F fun c hc => isHeaderChar_printable (hx c hc)]
  exact List.prefix_append _ _

end Arrivals

attribute [irreducible] Formats.arrives

end SlatedbCloudflare.Http
