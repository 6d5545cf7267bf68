import SlatedbCloudflare.Container.Instance
import SlatedbCloudflare.DurableObject.Instance
import SlatedbCloudflare.Platform.Http

/-! # The query parameters of a scan

The services decode the same query string. The Durable Object takes the first pair of
a name and drops a limit it cannot parse; the container refuses what does not fit.
-/
namespace SlatedbCloudflare
open Instance Http

/-- The decoded pairs of a query string in their order. -/
abbrev Query := List (String × String)

def parseNumber (text : String) : Option ℕ :=
  match text.toList with
  | [] => none
  | ['+'] => none
  | '+' :: digits => Formats.decimal (String.ofList digits)
  | digits => Formats.decimal (String.ofList digits)

def SlateDbObject.scanCall (query : Query) : Call :=
  .scan (query.lookup "prefix") ((query.lookup "limit").bind parseNumber)

namespace AppState

/-- `usize` in the container. -/
def USIZE_BITS : ℕ := 64

def queryField (query : Query) (name : String) : Option (Option String) :=
  match query.filter (fun pair => pair.1 = name) with
  | [] => some none
  | [pair] => some (some pair.2)
  | _ => none

def limitField : Option String → Option (Option ℕ)
  | none => some none
  | some text =>
    match parseNumber text with
    | some n => if n < 2 ^ USIZE_BITS then some (some n) else none
    | none => none

/-- `Query<ScanQuery>`, whose rejections come from the extractor. -/
def scanCall (rejection : AppError) (query : Query) : Except AppError Call :=
  match queryField query "prefix", (queryField query "limit").bind limitField with
  | some start, some limit => .ok (.scan start limit)
  | _, _ => .error rejection

end AppState

/-- A query with one prefix and one limit at most, the limit a number of 64 bits. -/
structure ScanParameters where
  query : Query
  one_prefix : (query.filter (fun pair => pair.1 = "prefix")).length ≤ 1
  one_limit : (query.filter (fun pair => pair.1 = "limit")).length ≤ 1
  decimal : ∀ text, query.lookup "limit" = some text → ∃ n, parseNumber text = some n ∧ n < 2 ^ 64

namespace ScanParameters

def start (q : ScanParameters) : String := (q.query.lookup "prefix").getD ""

def limit (q : ScanParameters) : Option ℕ := (q.query.lookup "limit").bind parseNumber

theorem queryField_lookup {query : Query} {name : String}
    (h : (query.filter (fun pair => pair.1 = name)).length ≤ 1) :
    AppState.queryField query name = some (query.lookup name) := by
  induction query with
  | nil => rfl
  | cons pair query ih =>
    by_cases hname : pair.1 = name
    · have hrest : query.filter (fun pair => pair.1 = name) = [] := by
        rw [List.filter_cons_of_pos (by simpa using hname), List.length_cons] at h
        exact List.length_eq_zero_iff.mp (by omega)
      subst hname
      rw [List.lookup_cons, beq_self_eq_true]
      simp [AppState.queryField, hrest]
    · rw [List.filter_cons_of_neg (by simpa using hname)] at h
      have hbeq : (name == pair.1) = false := beq_false_of_ne (Ne.symm hname)
      rw [List.lookup_cons, hbeq, AppState.queryField, List.filter_cons_of_neg (by simpa using hname)]
      exact ih h

theorem limitField_lookup (q : ScanParameters) : AppState.limitField (q.query.lookup "limit") = some q.limit := by
  cases htext : q.query.lookup "limit" with
  | none => rw [limit, htext]; rfl
  | some text =>
    obtain ⟨n,hn,hlt⟩ := q.decimal text htext
    rw [AppState.limitField, limit, htext, Option.bind_some, hn]
    exact if_pos hlt

/-- Both services decode these parameters to the same call. -/
theorem scanCall_eq (q : ScanParameters) (rejection : AppError) :
    AppState.scanCall rejection q.query = .ok (SlateDbObject.scanCall q.query) := by
  rw [AppState.scanCall, queryField_lookup q.one_prefix, queryField_lookup q.one_limit, Option.bind_some,
    q.limitField_lookup]
  rfl

end ScanParameters

end SlatedbCloudflare
