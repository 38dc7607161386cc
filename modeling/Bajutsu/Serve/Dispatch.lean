import Bajutsu.Lib.PathPattern
import Bajutsu.Lib.PercentDecoding
import Bajutsu.Serve.SecurityGate

/-!
# The operation of a path

The local handler reads the raw path of a request, cut as `urlparse` cuts it, and decodes what it binds. The
application reads the decoded path. Each dispatches to the operation of one route, or finds none.
-/

namespace Bajutsu.Serve.Dispatch

open FileSystem Gate PathPattern PercentDecoding UrlSplit

/-- The operation of a route, and the decoded values of its parameters. -/
structure Operation where
  id : String × String
  params : List (Name × Text)
  deriving DecidableEq

def eventsPath : String := "/api/jobs/{job_id}/events"

def archivePath : String := "/runs/{run_id}/archive.zip"

def runFilePath : String := "/runs/{rel:path}"

def modulePath : String := "/serve.{name}.mjs"

def isRunIdChar (c : Char) : Bool := c.isAlphanum || c = '.' || c = '_' || c = '-'

def validRunId : Text → Bool
  | [] => false
  | c :: runId => c.isAlphanum && runId.all isRunIdChar

/-- The checks that both backends make of what they have bound: a frontend module is one of the bundled ones, and an
archive is one of a run id. What fails them is not found. -/
def answers (route : Route) (params : List (Name × Text)) : Bool :=
  if route.path = modulePath then
    params.all fun (_, name) => modulePaths.contains (String.ofList ("/serve.".toList ++ (name ++ ".mjs".toList)))
  else if route.path = archivePath then params.all fun (_, runId) => validRunId runId
  else true

/-! ## The local handler -/

/-- `path[len(start):-len(last)]`. -/
def sliced (path start last : Text) : Text := (path.take (path.length - last.length)).drop start.length

/-- `http.server` reduces the slashes that a target starts with to one. -/
def requestTarget (target : Text) : Text :=
  if "//".toList.isPrefixOf target then '/' :: target.dropWhile (· = '/') else target

/-- The route that the handler takes a path for. -/
def claimed (method path : String) : Option Route :=
  if method = "GET" then (serveStreamingGet path).or (dispatchGet path)
  else if method = "POST" then (rawUpload path).or (dispatchPost path)
  else if method = "DELETE" then dispatchRegistry method path
  else none

/-- What the handler passes to the operation of the route. Of a job's events the id is passed as it stands. -/
def handlerParams (route : Route) (path : String) : Option (List (Name × Text)) :=
  if route.path = eventsPath then
    some [("job_id".toList, sliced path.toList "/api/jobs/".toList "/events".toList)]
  else if route.path = archivePath then
    some [("run_id".toList, unquote (sliced path.toList "/runs/".toList "/archive.zip".toList))]
  else if route.path = runFilePath then some [("rel".toList, unquote (path.toList.drop "/runs/".length))]
  else if route.path = modulePath then some [("name".toList, sliced path.toList "/serve.".toList ".mjs".toList)]
  else (matchTemplate route.path path).map fun params => params.map fun (name, value) => (name, unquote value)

/-- The operation for the path of a target. -/
def pathOperation (method path : String) : Option Operation :=
  (claimed method path).bind fun route =>
    ((handlerParams route path).filter (answers route)).map fun params => ⟨route.id, params⟩

def handlerOperation (rt : Runtime) (method : String) (target : Text) : Option Operation :=
  (urlparsePath rt.validNetloc (requestTarget target)).bind fun path => pathOperation method (String.ofList path)

/-! ## The application -/

/-- The first route that binds the path, in the order in which they were registered. -/
def appRoute (site : Site) (method : String) (path : Text) : Option (Route × List (Name × Text)) :=
  (fastapiRoutes site).findSome? fun route =>
    if route.method = method then (bind (compilePath route.path.toList) path).map (route, ·) else none

def appOperation (site : Site) (method : String) (path : Text) : Option Operation :=
  ((appRoute site method path).filter fun (route, params) => answers route params).map fun (route, params) =>
    ⟨route.id, params⟩

/-- Both backends dispatch a raw path to the same operation with the same parameters, or both find none. -/
def RoutesAlike (site : Site) (method : String) (raw : Text) : Prop :=
  handlerOperation site.rt method raw = appOperation site method (unquote raw)

/-- A raw path as it stands in a request: it starts at the root, and has no query, no fragment and no line break. -/
structure RawPath (raw : Text) : Prop where
  root : raw.head? = some '/'
  plain : Plain raw

end Bajutsu.Serve.Dispatch
