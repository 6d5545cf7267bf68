import SlatedbCloudflare.Instance.Routes
import SlatedbCloudflare.Platform.PercentDecoding

/-! # Routing of the container service -/
namespace SlatedbCloudflare.AppState
open Instance Http Url

/-- The first group of `/^\/v1\/db\/([^/]+)\//`. -/
def databaseSegment (pathname : String) : Option String :=
  if "/v1/db/".toList <+: pathname.toList then
    let rest := pathname.toList.drop 7
    let segment := rest.takeWhile (· ≠ '/')
    if segment ≠ [] ∧ rest.dropWhile (· ≠ '/') ≠ [] then some (String.ofList segment) else none
  else none

/-- `/^[A-Za-z0-9_-]{1,128}$/` -/
def isDatabaseName (database : String) : Bool :=
  1 ≤ database.length && database.length ≤ 128 &&
    database.toList.all (fun c => c.isAlphanum || c = '_' || c = '-')

def fetch (authorized : Bool) (pathname : String) : Outcome :=
  if pathname = "/" ∨ pathname = "/health" then .answered 200 "slatedb-cloudflare-container"
  else if !authorized then .answered 401 "unauthorized"
  else match databaseSegment pathname with
    | none => .answered 404 "route not found"
    | some segment => match percentDecode segment with
      | none => .thrown "URI malformed"
      | some database =>
        if isDatabaseName database then .forwarded database else .answered 400 "invalid database name"

/-- The segments after `/v1/db/{database}`, where `{database}` is not empty. -/
def databaseRoute (path : String) : Option (String × List String) :=
  match segments path.toList with
  | "" :: "v1" :: "db" :: database :: tail => if database = "" then none else some (database,tail)
  | _ => none

/-- The methods of a route. `get` routes answer `HEAD` requests too. -/
def accepts (method route : Method) : Bool := method = route || (method = .head && route = .get)

/-- The router of the container and the extractor of its path parameter. -/
def router (method : Method) (path : String) : Dispatch :=
  match databaseRoute path with
  | none => .refused 404 ""
  | some (database,tail) => match routes.find? (fun r => r.1 = tail) with
    | none => .refused 404 ""
    | some (_,allowed,handler) =>
      if accepts method allowed then
        match percentDecode database with
        | none => .refused 400 "Invalid URL"
        | some name => .handled handler name
      else .refused 405 ""

end SlatedbCloudflare.AppState
