import SlatedbCloudflare.Container.Instance
import SlatedbCloudflare.Library.Fuel

/-! # The size of the cache directory

The walk asks the file system for one thing at a time, and other tasks change the
directory between its calls. Paths are relative to the cache directory.
-/
namespace SlatedbCloudflare.AppState
open Programs Fuel

inductive Metadata
  | directory
  | file (len : UInt64)

inductive FileCall
  | readDir (path : List String)
  | metadata (path : List String)

/-- The reply to `readDir` is what its stream yields. -/
abbrev FileReply : FileCall → Type
  | .readDir _ => Except IoError (List (Except IoError String))
  | .metadata _ => Except IoError Metadata

abbrev WalkM (α : Type) := Cut FileCall FileReply IoError α

/-- The `?` operator of the walk. -/
def orReturn {α : Type} (x : Except IoError α) : WalkM α := Prog.orElse x (fun error => .err (some error))

/-- What an entry adds to the total. -/
def entrySize (size : List String → WalkM UInt64) (path : List String) : WalkM UInt64 := do
  let result : Except IoError Metadata ← Prog.ask (FileCall.metadata path)
  let metadata ← orReturn result
  match metadata with
  | .directory => size path
  | .file len => pure len

/-- The loop over the entries. In a release build the addition wraps around. -/
def sumEntries (size : List String → WalkM UInt64) (path : List String) :
    List (Except IoError String) → UInt64 → WalkM UInt64
  | [], total => pure total
  | entry :: entries, total => do
    let name ← orReturn entry
    let added ← entrySize size (path ++ [name])
    sumEntries size path entries (total + added)

/-- `read_dir`, of which a missing directory ends the walk with zero. -/
def readEntries (path : List String) (loop : List (Except IoError String) → WalkM UInt64) : WalkM UInt64 := do
  let entries : Except IoError (List (Except IoError String)) ← Prog.ask (FileCall.readDir path)
  match entries with
  | .ok entries => loop entries
  | .error .notFound => pure 0
  | .error error => .err (some error)

/-- `directory_size_sync`, cut off where it enters a directory `depth` levels down. -/
def directorySizeSync : ℕ → List String → WalkM UInt64
  | 0, path => readEntries path (fun _ => .err none)
  | depth + 1, path => readEntries path (fun entries => sumEntries (directorySizeSync depth) path entries 0)

inductive Entries
  | nil
  | file (name : String) (len : UInt64) (others : Entries)
  | dir (name : String) (entries others : Entries)

/-- Whatever is no directory has a length only. -/
inductive Entry
  | file (len : UInt64)
  | dir (entries : Entries)

namespace Entries

def toList : Entries → List (String × Entry)
  | .nil => []
  | .file name len others => (name,.file len) :: others.toList
  | .dir name entries others => (name,.dir entries) :: others.toList

def names (e : Entries) : List String := e.toList.map Prod.fst

def Distinct : Entries → Prop
  | .nil => True
  | .file name _ others => name ∉ others.names ∧ others.Distinct
  | .dir name entries others => name ∉ others.names ∧ entries.Distinct ∧ others.Distinct

def total : Entries → ℕ
  | .nil => 0
  | .file _ len others => len.toNat + others.total
  | .dir _ entries others => entries.total + others.total

def height : Entries → ℕ
  | .nil => 1
  | .file _ _ others => others.height
  | .dir _ entries others => max (entries.height + 1) others.height

end Entries

def Entry.total : Entry → ℕ
  | .file len => len.toNat
  | .dir entries => entries.total

def Entry.metadata : Entry → Metadata
  | .file len => .file len
  | .dir _ => .directory

def notADirectory : IoError := .other "Not a directory"

def find : List String → Entry → Except IoError Entry
  | [], entry => .ok entry
  | _ :: _, .file _ => .error notADirectory
  | name :: path, .dir entries =>
    match entries.toList.lookup name with
    | some entry => find path entry
    | none => .error .notFound

/-- How the cache directory looks at each call of a walk, and what a stream yields that
the call opens. Streams may see or miss what changes, but not what does not. -/
structure Interleaving where
  root : ℕ → Option Entries
  listed : ℕ → List String → List (Except IoError String)
  distinct : ∀ n entries, root n = some entries → entries.Distinct
  settled : (∀ n, root n = root 0) → ∀ n path top entries, root n = some top →
    find path (.dir top) = .ok (.dir entries) → (listed n path).Perm (entries.names.map Except.ok)

namespace Interleaving
variable (W : Interleaving)

def entryAt (n : ℕ) (path : List String) : Except IoError Entry :=
  match W.root n with
  | some entries => find path (.dir entries)
  | none => .error .notFound

def reply (n : ℕ) : (r : FileCall) → FileReply r
  | .readDir path =>
    match W.entryAt n path with
    | .ok (.dir _) => .ok (W.listed n path)
    | .ok (.file _) => .error notADirectory
    | .error error => .error error
  | .metadata path => (W.entryAt n path).map Entry.metadata

/-- The walk of the cache directory makes the call and gets this reply. -/
def Made (x : (r : FileCall) × FileReply r) : Prop := Fuel.Made W.reply (fun depth => directorySizeSync depth []) x

def ReturnsOk (size : UInt64) : Prop := Finishes W.reply (fun depth => directorySizeSync depth []) size

def Unchanged : Prop := ∀ n, W.root n = W.root 0

def total : ℕ := ((W.root 0).map Entries.total).getD 0

end Interleaving

end SlatedbCloudflare.AppState
