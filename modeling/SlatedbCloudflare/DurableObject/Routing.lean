import SlatedbCloudflare.Instance.Routes

/-! # Routing of the Durable Object service -/
namespace SlatedbCloudflare.SlateDbObject
open Instance Http

/-- `trim_matches('/')` -/
def trimSlashes (path : List Char) : List Char :=
  ((path.dropWhile (· = '/')).reverse.dropWhile (· = '/')).reverse

def routeSegments (path : String) : Except String (List String) :=
  match segments (trimSlashes path.toList) with
  | "v1" :: "db" :: database :: tail :: rest => .ok ("v1" :: "db" :: database :: tail :: rest)
  | _ => .error "route not found"

def validateDatabaseName (name : String) : Except String Unit :=
  if ValidDatabaseName name then .ok () else .error "invalid database name"

def databaseSegments (path : String) : Except String (String × List String) := do
  let segments ← routeSegments path
  let database := segments.getD 2 ""
  validateDatabaseName database
  pure (database,segments.drop 3)

def main (authorized : Bool) (path : String) : Outcome :=
  if path = "/" ∨ path = "/health" then .answered 200 "slatedb-cloudflare-feasibility"
  else if !authorized then .answered 401 "unauthorized"
  else match databaseSegments path with
    | .error error => .thrown error
    | .ok (database,_) => .forwarded database

/-- Where `handle` of the object goes. An error becomes a response of status 500. -/
def dispatch (method : Method) (path : String) : Dispatch :=
  match databaseSegments path with
  | .error error => .refused 500 error
  | .ok (database,tail) => match routes.find? (fun r => r.1 = tail ∧ r.2.1 = method) with
    | none => .refused 404 "route not found"
    | some (_,_,handler) => .handled handler database

end SlatedbCloudflare.SlateDbObject
