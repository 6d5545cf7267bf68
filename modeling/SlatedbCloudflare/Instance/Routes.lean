import SlatedbCloudflare.Instance.Handlers
import SlatedbCloudflare.Platform.Http

/-! # The routes of both services

A Worker picks an instance by the path of a request and forwards the request to
it; the instance reads the path again to pick a handler and its database.
-/
namespace SlatedbCloudflare.Instance
open Http

inductive Outcome
  | answered (status : ℕ) (text : String)
  | thrown (error : String)
  | forwarded (name : String)
  deriving DecidableEq

inductive Handler
  | put
  | get
  | delete
  | scan
  | stats
  | reopen
  | flush
  | clearCache
  | benchmarkBatch
  deriving DecidableEq

/-- What an instance does with a request: a handler with its database, or none. -/
inductive Dispatch
  | refused (status : ℕ) (error : String)
  | handled (handler : Handler) (database : String)
  deriving DecidableEq

/-- The rest of the path, the method and the handler of each route. -/
def routes : List (List String × Method × Handler) :=
  [(["put"],.post,.put),(["get"],.get,.get),(["delete"],.post,.delete),(["scan"],.get,.scan),
    (["stats"],.get,.stats),(["admin","reopen"],.post,.reopen),(["admin","flush"],.post,.flush),
    (["admin","cache","clear"],.post,.clearCache),
    (["admin","benchmark","batch"],.post,.benchmarkBatch)]

def segments (path : List Char) : List String := (path.splitOn '/').map String.ofList

/-- A request that both the Worker and its instance let through: forwarded to `name`, and
handled there under `database`. -/
structure Reaches (worker : Outcome) (dispatch : Dispatch) (name database : String) : Prop where
  forwarded : worker = .forwarded name
  handled : ∃ handler, dispatch = .handled handler database

end SlatedbCloudflare.Instance
