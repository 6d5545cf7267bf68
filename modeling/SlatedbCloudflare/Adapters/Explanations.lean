import SlatedbCloudflare.Library.Narratives
import SlatedbCloudflare.Platform.Effects
import SlatedbCloudflare.Reads.Ranges

/-! # Calls of an adapter as commands on the bucket

What an adapter stands for is a store of objects by key. Each call is a few commands on
that store, and its result says which: a put looks at the key and then may replace the
object there, a read finds an object or none, and a copy is a read and a later put.
-/
namespace SlatedbCloudflare.Adapters
open Messages Histories Narratives ObjectStore R2

abbrev BucketCommand := Command Unit String Object

section Told
variable (s : State) (key : String) (t : State)

/-- What happened at the key, for requests whose replies do not tell. -/
def changes : List BucketCommand :=
  if t.objects key = s.objects key then []
  else match t.objects key with
    | some object => [.put () key object]
    | none => [.delete () key]

/-- A put that may have happened. -/
def attempted : List BucketCommand :=
  if t.objects key = s.objects key then [] else .get () key (s.objects key) :: changes s key t

end Told

/-- An answer of R2 as commands on the bucket. -/
def told (s : State) (r : Request) (x : Reply r) (t : State) : List BucketCommand :=
  match r, x with
  | .head key, .ok object => [.get () key object]
  | .get key _ _, .ok found => [.get () key (found.map Prod.fst)]
  | .put key _ _, .ok none => [.get () key (s.objects key)]
  | .put key _ _, .ok (some object) => [.get () key (s.objects key),.put () key object]
  | .put key _ _, .error _ => attempted s key t
  | .delete key, .ok _ => [.delete () key]
  | .delete key, .error _ => changes s key t
  | .completeMultipartUpload key _ _, .ok object => [.put () key object]
  | .completeMultipartUpload key _ _, .error _ => changes s key t
  | _, _ => []

section Tells
variable {keys : Histories.Keys String} {s : State} {object : Object} {key : String}

def Writes : Request → Prop
  | .put _ _ _ => True
  | .delete _ => True
  | .completeMultipartUpload _ _ _ => True
  | _ => False

end Tells

/-- How an adapter names keys and shows objects, and when one of its updates applies. -/
structure Dialect where
  key : Path → String
  tag : Object → String
  version : Object → String
  date : Object → Option DateTime
  Matches : Path → UpdateVersion → Option Object → Prop

/-- A call of an adapter, or any other use of what it is built on. -/
inductive Call (P : Type)
  | put (location : Path) (payload : List Bytes) (mode : PutMode)
  | get (location : Path) (options : GetOptions)
  | delete (location : Path)
  | copy (source target : Path) (mode : CopyMode)
  | other (p : P)

inductive Outcome
  | put (result : PutResult)
  | get (result : GetResult)
  | done

def copied : CopyMode → PutMode
  | .overwrite => .overwrite
  | .create => .create

section Explanations
variable (D : Dialect) {P : Type}

/-- What a put in this mode asks of the object it finds. -/
def Dialect.Permits (location : Path) : PutMode → Option Object → Prop
  | .overwrite, _ => True
  | .create, found => found = none
  | .update version, found => D.Matches location version found

def Dialect.result (object : Object) : PutResult := ⟨some (D.tag object),some (D.version object)⟩

structure Dialect.Describes (location : Path) (object : Object) (metadata : ObjectMeta) : Prop where
  location_eq : metadata.location = location
  size_eq : metadata.size = object.size
  tag_eq : metadata.eTag = some (D.tag object)
  version_eq : metadata.version = some (D.version object)
  date_eq : D.date object = some metadata.lastModified

def refusal (location : Path) : PutMode → Error
  | .create => .alreadyExists location.raw "R2 create precondition failed"
  | _ => .precondition location.raw "R2 update precondition failed"

/-- A put looks at its key and stores its payload there if the mode permits. -/
inductive Puts (location : Path) (payload : Bytes) (mode : PutMode) : List BucketCommand → Prop
  | unreached : Puts location payload mode []
  | refused {found : Option Object} (h : ¬ D.Permits location mode found) :
      Puts location payload mode [.get () (D.key location) found]
  | stored {found : Option Object} {object : Object} (h : D.Permits location mode found)
      (hcontent : object.content = payload) :
      Puts location payload mode [.get () (D.key location) found,.put () (D.key location) object]

inductive Reads (location : Path) : List BucketCommand → Prop
  | unreached : Reads location []
  | read (found : Option Object) : Reads location [.get () (D.key location) found]

inductive Deletes (location : Path) : List BucketCommand → Prop
  | unreached : Deletes location []
  | deleted : Deletes location [.delete () (D.key location)]

/-- What a call that has returned did, by its result. -/
inductive Explains : Call P → Except Error Outcome → List BucketCommand → Prop
  | stored {location : Path} {payload : List Bytes} {mode : PutMode} {found : Option Object} {object : Object}
      (h : D.Permits location mode found) (hcontent : object.content = payload.flatten) :
      Explains (.put location payload mode) (.ok (.put (D.result object)))
        [.get () (D.key location) found,.put () (D.key location) object]
  | refused {location : Path} {payload : List Bytes} {mode : PutMode} {found : Option Object}
      (h : ¬ D.Permits location mode found) :
      Explains (.put location payload mode) (.error (refusal location mode)) [.get () (D.key location) found]
  | unsupported (location : Path) (payload : List Bytes) (mode : PutMode) (source : String) :
      Explains (.put location payload mode) (.error (.notSupported source)) []
  | unsettled {location : Path} {payload : List Bytes} {mode : PutMode} {cs : List BucketCommand}
      (h : Puts D location payload.flatten mode cs) (store source : String) :
      Explains (.put location payload mode) (.error (.generic store source)) cs
  | read {location : Path} {options : GetOptions} {object : Object} {result : GetResult}
      (hmetadata : D.Describes location object result.metadata)
      (hrange : result.range = (options.range.map (fun range => range.clip object.size)).getD (0,object.size))
      (hpayload : result.payload = if options.head then [] else slice object.content result.range) :
      Explains (.get location options) (.ok (.get result)) [.get () (D.key location) (some object)]
  | missing (location : Path) (options : GetOptions) :
      Explains (.get location options) (.error (.notFound location.raw "R2 object not found"))
        [.get () (D.key location) none]
  | unread {location : Path} {options : GetOptions} {cs : List BucketCommand} (h : Reads D location cs)
      {error : Error} (herror : ∀ path source, error ≠ .notFound path source) :
      Explains (.get location options) (.error error) cs
  | deleted (location : Path) : Explains (.delete location) (.ok .done) [.delete () (D.key location)]
  | undeleted {location : Path} {cs : List BucketCommand} (h : Deletes D location cs) (error : Error) :
      Explains (.delete location) (.error error) cs
  | copied {source target : Path} {mode : CopyMode} {got : GetResult} {result : PutResult}
      {cs cs' : List BucketCommand} (hget : Explains (.get source {}) (.ok (.get got)) cs)
      (hput : Explains (.put target [got.payload] (copied mode)) (.ok (.put result)) cs') :
      Explains (.copy source target mode) (.ok .done) (cs ++ cs')
  | unwritten {source target : Path} {mode : CopyMode} {got : GetResult} {error : Error}
      {cs cs' : List BucketCommand} (hget : Explains (.get source {}) (.ok (.get got)) cs)
      (hput : Explains (.put target [got.payload] (copied mode)) (.error error) cs') :
      Explains (.copy source target mode) (.error error) (cs ++ cs')
  | uncopied {source target : Path} {mode : CopyMode} {error : Error} {cs : List BucketCommand}
      (hget : Explains (.get source {}) (.error error) cs) : Explains (.copy source target mode) (.error error) cs
  | uncollected {source target : Path} {mode : CopyMode} {got : GetResult} {cs : List BucketCommand}
      (hget : Explains (.get source {}) (.ok (.get got)) cs) (store message : String) :
      Explains (.copy source target mode) (.error (.generic store message)) cs
  | other (p : P) (r : Except Error Outcome) (cs : List BucketCommand) : Explains (.other p) r cs

end Explanations

section Answers
variable {D : Dialect} {R : Rules} {location : Path} {s t : State}

/-- R2 answers a put as the mode says, if its condition is what the mode asks. -/
theorem puts_of_serve {mode : PutMode} {payload : Bytes} {c : OnlyIf} {x : Reply (.put (D.key location) payload c)}
    (hpermits : ∀ found, D.Permits location mode found ↔ R.evaluate c found = some true)
    (h : Serve R s (.put (D.key location) payload c) x t) :
    Puts D location payload mode (told s (.put (D.key location) payload c) x t) := by
  have hrefused : ∀ {found}, R.evaluate c found = some false → ¬ D.Permits location mode found := by
    intro found heval
    rw [hpermits, heval]
    simp
  cases h with
  | served h =>
    rcases h with ⟨heval,rfl,rfl⟩ | ⟨heval,object,_,hcontent,rfl,_⟩
    · exact .refused (hrefused heval)
    · exact .stored ((hpermits _).mpr heval) hcontent
  | failed e =>
    simp only [told, attempted, ↓reduceIte]
    exact .unreached
  | unacknowledged h e =>
    rcases h with ⟨heval,_,rfl⟩ | ⟨heval,object,hkey,hcontent,_,rfl⟩
    · simp only [told, attempted, ↓reduceIte]
      exact .unreached
    · have hstored : (s.store object).objects (D.key location) = some object := by
        rw [← hkey]
        exact Function.update_self ..
      simp only [told, attempted, changes, hstored]
      split
      · exact .unreached
      · exact .stored ((hpermits _).mpr heval) hcontent

theorem deletes_of_serve {x : Reply (.delete (D.key location))} (h : Serve R s (.delete (D.key location)) x t) :
    Deletes D location (told s (.delete (D.key location)) x t) := by
  cases h with
  | served h => exact .deleted
  | failed e =>
    simp only [told, changes, ↓reduceIte]
    exact .unreached
  | unacknowledged h e =>
    have hremoved : t.objects (D.key location) = none := by
      rw [show t = s.remove (D.key location) from h]
      exact Function.update_self ..
    simp only [told, changes, hremoved]
    split
    · exact .unreached
    · exact .deleted

end Answers

section Copies
variable {D : Dialect} {ι Req Out ε α : Type} {Resp : Req → Type} [DecidableEq ι] {V : Service State Req Resp} {s : State}
  {p : ι → Programs.Prog Req Resp Out ε α} {es : List (Event ι State Req Resp)} {t : System ι State Req Resp Out ε α}
  {block : Event ι State Req Resp → List BucketCommand} {i : ι} {source target : Path} {mode : PutMode} {first last : ℕ}

end Copies

section Ranges
variable {R : Rules} {lib : Crate} {range : Option GetRange} {size : ℕ} {bounds : ℕ × ℕ}

end Ranges

end SlatedbCloudflare.Adapters
