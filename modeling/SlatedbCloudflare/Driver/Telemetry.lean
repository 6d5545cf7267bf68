import SlatedbCloudflare.Instance.Handlers
import SlatedbCloudflare.Library.Traversals

/-! # The telemetry of the benchmark driver

The driver reads the statistics of all databases at checkpoints and compares two of
them twice: to tell that an instance lost its counters, and to price what lies
between. A counter that is missing counts as zero.
-/
namespace SlatedbCloudflare.Benchmark
open Traversals

/-- The names under which every object of JavaScript has a property. -/
def inheritedNames : List String :=
  ["constructor","hasOwnProperty","isPrototypeOf","propertyIsEnumerable","toLocaleString","toString","valueOf",
    "__proto__","__defineGetter__","__defineSetter__","__lookupGetter__","__lookupSetter__"]

/-- The adapter counters of a snapshot in the order of `Object.entries`. -/
structure AdapterCounters where
  entries : List (String × ℕ)
  distinct : (entries.map Prod.fst).Nodup
  own : ∀ e ∈ entries, e.1 ∉ inheritedNames

namespace AdapterCounters

/-- `adapter[name]` -/
def get? (a : AdapterCounters) (name : String) : Option ℕ := a.entries.lookup name

/-- `adapter[name] ?? 0` -/
def value (a : AdapterCounters) (name : String) : ℕ := (a.get? name).getD 0

def empty : AdapterCounters := ⟨[],by decide,by decide⟩

end AdapterCounters

abbrev DatabaseStatus := Instance.StatusResponse AdapterCounters

/-- What `captureTelemetry` keeps for a checkpoint. -/
structure Checkpoint (databases : List String) where
  statuses : List DatabaseStatus
  complete : statuses.length = databases.length

def assertNotFallen (current : AdapterCounters) (e : String × ℕ) : Except String Unit :=
  if current.value e.1 < e.2 then
    .error ("stateful instance reset during measurement: " ++ e.1 ++ " fell from " ++ toString e.2 ++ " to " ++
      toString (current.value e.1))
  else .ok ()

def assertNoneFallen : Option DatabaseStatus → Option DatabaseStatus → Except String Unit
  | some previous, some current =>
    previous.adapter.entries.foldlM (fun _ e => assertNotFallen current.adapter e) ()
  | _, _ => .error "benchmark telemetry is incomplete"

/-- `before` and `after` are the checkpoints of these names, if they were captured. -/
def assertNoObjectReset (databases : List String) (before after : Option (List DatabaseStatus)) :
    Except String Unit :=
  (List.range databases.length).foldlM (fun _ index => assertNoneFallen
    (before.bind (fun statuses => statuses[index]?)) (after.bind (fun statuses => statuses[index]?))) ()

abbrev Delta := String → Option ℤ

def counter (counters : Delta) (name : String) : ℤ := (counters name).getD 0

def addDelta (before : Option DatabaseStatus) (delta : Delta) (e : String × ℕ) : Except String Delta :=
  let previous := (before.bind (fun status => status.adapter.get? e.1)).getD 0
  if e.2 < previous then .error (e.1 ++ " fell from " ++ toString previous ++ " to " ++ toString e.2)
  else .ok (Function.update delta e.1 (some ((delta e.1).getD 0 + e.2 - previous)))

def adapterDelta (before after : List DatabaseStatus) : Except String Delta :=
  after.zipIdx.foldlM (fun delta status =>
    status.1.adapter.entries.foldlM (addDelta before[status.2]?) delta) (fun _ => none)

end SlatedbCloudflare.Benchmark
