import Mathlib.Data.List.Basic
import Mathlib.Algebra.Order.Ring.Int

/-! # The vocabulary of the `object_store` crate

Types the adapters exchange with SlateDB, and the crate functions they call. The
crate is not part of the repository: its functions are the fields of `Crate`,
with the behaviour the adapters rely on.
-/
namespace SlatedbCloudflare.ObjectStore

abbrev Bytes := List UInt8

/-- Nanoseconds since the Unix epoch. -/
abbrev DateTime := Int

def timestampMillis (date : DateTime) : Int := date / 1000000

def asU64 (n : Int) : ℕ := (n % 2 ^ 64).toNat

/-- A path segment: nonempty, not a dot segment, without `/` and ASCII controls. -/
def validSegment (segment : List Char) : Bool :=
  segment ≠ [] && segment ≠ ['.'] && segment ≠ ['.','.'] &&
    segment.all (fun c => c ≠ '/' && 32 ≤ c.toNat && c.toNat ≠ 127)

/-- A location in its string form: segments joined by `/`, or the empty root. -/
structure Path where
  raw : String
  valid : raw = "" ∨ (raw.toList.splitOn '/').all validSegment = true
  deriving DecidableEq

structure UpdateVersion where
  eTag : Option String
  version : Option String
  deriving DecidableEq

inductive PutMode
  | overwrite
  | create
  | update (version : UpdateVersion)
  deriving DecidableEq

inductive CopyMode
  | overwrite
  | create
  deriving DecidableEq

structure PutResult where
  eTag : Option String
  version : Option String
  deriving DecidableEq

/-- The errors of the crate. A call that panics is told apart as `panicked`. -/
inductive Error
  | generic (store source : String)
  | notFound (path source : String)
  | alreadyExists (path source : String)
  | precondition (path source : String)
  | notModified (path source : String)
  | notSupported (source : String)
  | panicked (message : String)
  deriving DecidableEq

/-- The errors that promise an untouched bucket. -/
def Error.Refuses : Error → Prop
  | .alreadyExists _ _ => True
  | .precondition _ _ => True
  | .notSupported _ => True
  | _ => False

structure ObjectMeta where
  location : Path
  lastModified : DateTime
  size : ℕ
  eTag : Option String
  version : Option String
  deriving DecidableEq

inductive GetRange
  | bounded (start stop : ℕ)
  | offset (start : ℕ)
  | suffix (length : ℕ)
  deriving DecidableEq

structure GetOptions where
  ifMatch : Option String := none
  ifNoneMatch : Option String := none
  ifModifiedSince : Option DateTime := none
  ifUnmodifiedSince : Option DateTime := none
  range : Option GetRange := none
  version : Option String := none
  head : Bool := false
  deriving DecidableEq

/-- `payload` is what the result's stream would deliver. -/
structure GetResult where
  payload : Bytes
  metadata : ObjectMeta
  range : ℕ × ℕ

structure ListResult where
  commonPrefixes : List Path
  objects : List ObjectMeta

/-- The functions of the crate, and of the date library it comes with, that the
adapters call. -/
structure Crate where
  checkPreconditions : GetOptions → ObjectMeta → Except Error Unit
  isValid : GetRange → Except String Unit
  asRange : GetRange → ℕ → Except String (ℕ × ℕ)
  fromTimestampMillis : Int → Option DateTime
  parse : String → Except String Path
  checkPreconditions_default : ∀ m, checkPreconditions {} m = .ok ()
  parse_raw : ∀ p, parse p.raw = .ok p

namespace Crate

def trim (s : List Char) : List Char :=
  ((s.dropWhile Char.isWhitespace).reverse.dropWhile Char.isWhitespace).reverse

def listsTag (header tag : String) : Bool :=
  (header.toList.splitOn ',').any (fun part => trim part = tag.toList)

def preconditions (options : GetOptions) (m : ObjectMeta) : Except Error Unit :=
  let etag := m.eTag.getD "*"
  let matched := match options.ifMatch with
    | some header => header = "*" || listsTag header etag
    | none => options.ifUnmodifiedSince.all (fun date => m.lastModified ≤ date)
  let fresh := match options.ifNoneMatch with
    | some header => header ≠ "*" && !listsTag header etag
    | none => options.ifModifiedSince.all (fun date => date < m.lastModified)
  if !matched then .error (.precondition m.location.raw "precondition failed")
  else if !fresh then .error (.notModified m.location.raw "not modified")
  else .ok ()

def validRange : GetRange → Except String Unit
  | .bounded start stop => if stop ≤ start then .error "inconsistent range" else .ok ()
  | _ => .ok ()

def rangeWithin (range : GetRange) (size : ℕ) : Except String (ℕ × ℕ) :=
  match range with
  | .bounded start stop =>
    if stop ≤ start then .error "inconsistent range"
    else if size ≤ start then .error "range starts past the end"
    else .ok (start,min stop size)
  | .offset start => if size ≤ start then .error "range starts past the end" else .ok (start,size)
  | .suffix length => .ok (size - length,size)

def stripSlashes (s : List Char) : List Char :=
  let inner := if s.head? = some '/' then s.tail else s
  if inner.getLast? = some '/' then inner.dropLast else inner

def parsePath (path : String) : Except String Path :=
  if path = "/" then .ok ⟨"",.inl rfl⟩
  else
    let raw := String.ofList (stripSlashes path.toList)
    if h : raw = "" ∨ (raw.toList.splitOn '/').all validSegment = true then .ok ⟨raw,h⟩
    else .error "invalid path"

theorem stripSlashes_valid {s : List Char}
    (h : s = [] ∨ (s.splitOn '/').all validSegment = true) : stripSlashes s = s := by
  rcases h with rfl | h
  · rfl
  have hempty : ∀ x y : List Char, s = x ++ '/' :: y → x ≠ [] ∧ y ≠ [] := by
    intro x y hs
    rw [hs, List.splitOn_append_cons_self, List.all_append, Bool.and_eq_true] at h
    constructor
    · rintro rfl
      exact absurd h.1 (by decide)
    · rintro rfl
      exact absurd h.2 (by decide)
  have hhead : s.head? ≠ some '/' := by
    intro hs
    obtain ⟨y,hy⟩ := List.head?_eq_some_iff.mp hs
    exact (hempty [] y hy).1 rfl
  have hlast : s.getLast? ≠ some '/' := by
    intro hs
    obtain ⟨x,hx⟩ := List.getLast?_eq_some_iff.mp hs
    exact (hempty x [] hx).2 rfl
  simp only [stripSlashes, if_neg hhead, if_neg hlast]

theorem parsePath_raw (p : Path) : parsePath p.raw = .ok p := by
  obtain ⟨raw,hraw⟩ := p
  have hslash : raw ≠ "/" := by
    rintro rfl
    exact absurd hraw (by decide)
  have hstrip : stripSlashes raw.toList = raw.toList := by
    apply stripSlashes_valid
    rcases hraw with rfl | h
    · exact .inl rfl
    · exact .inr h
  have hround : String.ofList (stripSlashes raw.toList) = raw := by rw [hstrip, String.ofList_toList]
  simp only [parsePath, if_neg hslash, hround, dif_pos hraw]

def standard : Crate where
  checkPreconditions := preconditions
  isValid := validRange
  asRange := rangeWithin
  fromTimestampMillis ms := some (ms * 1000000)
  parse := parsePath
  checkPreconditions_default _ := rfl
  parse_raw := parsePath_raw

end Crate

end SlatedbCloudflare.ObjectStore
