import Bajutsu.Serve.Routes

/-!
# The path that the gate judges

The application judges the path of the request's URL, which is put together from the `Host` header and the decoded
path and split again; its router dispatches the decoded path. The local handler splits its target once for both.
-/

namespace Bajutsu.Serve.Gate

open UrlSplit FileSystem

/-! ## The application -/

inductive Scheme where
  | http
  | https

def Scheme.text : Scheme → Text
  | http => "http".toList
  | https => "https".toList

/-- A request as its framework hands it on: the path is decoded. -/
structure Request where
  scheme : Scheme
  method : String
  host : String
  path : String
  query : Option String := none
  origin : Option String := none
  caller : Caller

def Request.url (request : Request) : Text :=
  compose request.scheme.text request.host.toList request.path.toList
    ((request.query.map fun query => '?' :: query.toList).getD [])

/-- `request.url.path`; `none` when the URL does not parse. -/
def Request.urlPath (rt : Runtime) (request : Request) : Option String :=
  (urlsplit rt.validNetloc request.url).map fun split => String.ofList split.path

section Application

variable (site : Site) (router : String → String → Option Route) (request : Request)

/-- The middleware of the application up to the call of the route. -/
def securityGate : List Check × Verdict :=
  match hostAllowed site.rt site.allowedHosts request.host with
  | none => ([], .raised)
  | some false => ([], .refused "host not allowed" 403)
  | some true =>
    match if request.method = "POST" || request.method = "DELETE" then csrfOk site.rt request.origin request.host
      else some true with
    | none => ([], .raised)
    | some false => ([], .refused "cross-origin request blocked" 403)
    | some true =>
      match request.urlPath site.rt with
      | none => ([], .raised)
      | some path =>
        let signedStoreRoute := site.fileStore && isSignedStoreRoute request.method path
        if site.auth.token.isSome && !signedStoreRoute && !isOpen request.method path site.auth.oidc then
          credentialGate site request.caller request.method path
        else ([], .passed {})

/-- The route that is dispatched once the gate has let the request through. -/
def dispatched : Option Route :=
  match (securityGate site request).2 with
  | .passed _ => router request.method request.path
  | _ => none

variable {site router request}

/-- For a host without delimiters, the URL's path is the decoded path when that keeps its characters. -/
theorem urlPath_iff (hHost : ∀ c ∈ request.host.toList, isDelimiter c = false)
    (hRoot : request.path.toList.head? = some '/') {path : String} (h : request.urlPath site.rt = some path) :
    path = request.path ↔ Plain request.path.toList := by
  obtain ⟨split, hSplit, rfl⟩ := Option.map_eq_some_iff.mp h
  have hScheme : IsScheme request.scheme.text := by
    cases request.scheme with
    | _ => exact ⟨⟨'h', _, rfl, rfl⟩, List.all_eq_true.mp rfl⟩
  have hQuery : (request.query.map fun query => '?' :: query.toList).getD [] = [] ∨
      ((request.query.map fun query => '?' :: query.toList).getD []).head? = some '?' := by
    cases request.query with
    | none => exact .inl rfl
    | some query => exact .inr rfl
  rw [← urlsplit_compose_iff hScheme hHost hRoot hQuery hSplit]
  constructor
  · intro hSame
    rw [← hSame, String.toList_ofList]
  · intro hSame
    rw [hSame, String.ofList_toList]

end Application

/-! ## The local handler -/

/-- A request as `http.server` reads it: the target is not decoded. -/
structure HandlerRequest where
  command : String
  target : String
  host : String
  origin : Option String := none
  /-- The bound that a JSON body exceeds. -/
  oversized : Option String := none
  /-- Why the body is no JSON object. -/
  badBody : Option String := none
  caller : Caller

def HandlerRequest.path (rt : Runtime) (request : HandlerRequest) : Option String :=
  (urlparsePath rt.validNetloc request.target.toList).map String.ofList

def modulePaths : List String :=
  ["/serve.core.mjs", "/serve.panels.mjs", "/serve.crawl.mjs", "/serve.metrics.mjs", "/serve.orgs.mjs",
    "/serve.runset.mjs", "/serve.author.mjs"]

def dispatchRegistry (method path : String) : Option Route := (matchRoute ROUTES method path).filter (!·.offLoop)

def serveStreamingGet (path : String) : Option Route :=
  if startsWith path "/api/jobs/" && endsWith path "/events" then
    some { method := "GET", path := "/api/jobs/{job_id}/events" }
  else if startsWith path "/runs/" && endsWith path "/archive.zip" then
    some { method := "GET", path := "/runs/{run_id}/archive.zip" }
  else if path = captureScreenshot.path then some captureScreenshot
  else if startsWith path "/runs/" then some { method := "GET", path := "/runs/{rel:path}" }
  else none

def dispatchGet (path : String) : Option Route :=
  if path = "/" || path = "/index.html" then some { method := "GET", path := path }
  else if modulePaths.contains path then some { method := "GET", path := "/serve.{name}.mjs" }
  else if path = "/api/oauth/login" || path = "/api/oauth/callback" then some { method := "GET", path := path }
  else dispatchRegistry "GET" path

def uploadPaths : List String :=
  ["/api/upload", "/api/artifacts/config", "/api/artifacts/scenarios", "/api/artifacts/binary", "/api/scenarios/upload"]

/-- The uploads, whose bodies are not read as JSON. -/
def rawUpload (path : String) : Option Route :=
  if uploadPaths.contains path then some { method := "POST", path := path } else none

def dispatchPost (path : String) : Option Route :=
  if path = loginPath || path = oidcExchangePath then some { method := "POST", path := path }
  else dispatchRegistry "POST" path

/-- What comes of a request. -/
inductive Handled where
  | refused (error : String) (status : Nat)
  | raised
  | route (route : Option Route)

section Handler

variable (site : Site) (request : HandlerRequest)

def handlerGate : List Check × Verdict :=
  match hostAllowed site.rt site.allowedHosts request.host with
  | none => ([], .raised)
  | some false => ([], .refused "host not allowed" 403)
  | some true =>
    if site.auth.token.isNone then ([], .passed {})
    else match request.path site.rt with
      | none => ([], .raised)
      | some path =>
        if isOpen request.command path site.auth.oidc then ([], .passed {})
        else credentialGate site request.caller request.command path

def doGet (path : String) : Handled := .route ((serveStreamingGet path).or (dispatchGet path))

def sameOrigin (next : Handled) : Handled :=
  match csrfOk site.rt request.origin request.host with
  | none => .raised
  | some false => .refused "cross-origin request blocked" 403
  | some true => next

def doPost (path : String) : Handled :=
  match rawUpload path with
  | some route => .route (some route)
  | none =>
    match request.oversized with
    | some cap => .refused ("request body over " ++ cap ++ " bytes") 413
    | none => sameOrigin site request <| match request.badBody with
      | some error => .refused error 400
      | none => .route (dispatchPost path)

def doDelete (path : String) : Handled := sameOrigin site request (.route (dispatchRegistry "DELETE" path))

def handlerMethods : List String := ["GET", "POST", "DELETE"]

/-- `http.server` refuses a method that the handler does not have before the gate is asked. -/
def handle : Handled :=
  if !handlerMethods.contains request.command then
    .refused ("Unsupported method (\x27" ++ request.command ++ "\x27)") 501
  else match (handlerGate site request).2 with
    | .refused error status => .refused error status
    | .raised => .raised
    | .passed _ =>
      match request.path site.rt with
      | none => .raised
      | some path =>
        if request.command = "GET" then doGet path
        else if request.command = "POST" then doPost site request path
        else doDelete site request path

variable {site request}

/-- The route is one of the method that the path starts like. -/
structure Fits (method path : String) (route : Route) : Prop where
  mem : route ∈ allRoutes
  method : route.method = method
  start : literal route.path.toList <+: path.toList

theorem fits_exact {method path : String} (h : { method := method, path := path } ∈ allRoutes) :
    Fits method path { method := method, path := path } := ⟨h, rfl, List.takeWhile_prefix _⟩

theorem bounded_of_uniform {route : Route} (hMem : route ∈ ROUTES) (hLoop : route.offLoop = false) :
    Bounded (segments route.path.toList) := by
  intro segment hSegment name hName
  have hBounded := List.all_eq_true.mp uniform_bounded route hMem
  rw [hLoop, Bool.false_or, List.all_eq_true] at hBounded
  have hParameter := hBounded segment hSegment
  rw [hName] at hParameter
  simpa using hParameter

theorem dispatchRegistry_fits {method path : String} {route : Route} (h : dispatchRegistry method path = some route) :
    Fits method path route := by
  obtain ⟨hFound, hUniform⟩ := Option.filter_eq_some_iff.mp h
  have hMem := List.mem_of_find?_eq_some hFound
  have hMatch := List.find?_some hFound
  simp only [Bool.and_eq_true, decide_eq_true_eq] at hMatch
  obtain ⟨hMethod, hTemplate⟩ := hMatch
  refine ⟨List.mem_append_right _ (List.mem_filter.mpr ⟨hMem, hUniform⟩), hMethod, ?_⟩
  exact matchTemplate_prefix (bounded_of_uniform hMem (by simpa using hUniform)) hTemplate

theorem doGet_fits {path : String} {route : Route} (h : doGet path = .route (some route)) : Fits "GET" path route := by
  have h := Handled.route.inj h
  obtain hStream | ⟨-, hGet⟩ := Option.or_eq_some_iff.mp h
  · rw [serveStreamingGet] at hStream
    split at hStream
    · rename_i hEvents
      cases hStream
      exact ⟨by decide, rfl, List.isPrefixOf_iff_prefix.mp (Bool.and_eq_true_iff.mp hEvents).1⟩
    split at hStream
    · rename_i hArchive
      cases hStream
      exact ⟨by decide, rfl, List.isPrefixOf_iff_prefix.mp (Bool.and_eq_true_iff.mp hArchive).1⟩
    split at hStream
    · rename_i hCapture
      cases hStream
      rw [hCapture]
      exact fits_exact (by decide)
    split at hStream
    · rename_i hRun
      cases hStream
      exact ⟨by decide, rfl, List.isPrefixOf_iff_prefix.mp hRun⟩
    · cases hStream
  · rw [dispatchGet] at hGet
    split at hGet
    · rename_i hIndex
      cases hGet
      simp only [Bool.or_eq_true, decide_eq_true_eq] at hIndex
      obtain rfl | rfl := hIndex
      · exact fits_exact (by decide)
      · exact fits_exact (by decide)
    split at hGet
    · rename_i hModule
      cases hGet
      refine ⟨by decide, rfl, ?_⟩
      have hStarts : modulePaths.all (startsWith · "/serve.") = true := by decide
      exact List.isPrefixOf_iff_prefix.mp (List.all_eq_true.mp hStarts path (by simpa using hModule))
    split at hGet
    · rename_i hOauth
      cases hGet
      simp only [Bool.or_eq_true, decide_eq_true_eq] at hOauth
      obtain rfl | rfl := hOauth
      · exact fits_exact (by decide)
      · exact fits_exact (by decide)
    · exact dispatchRegistry_fits hGet

theorem rawUpload_fits {path : String} {route : Route} (h : rawUpload path = some route) : Fits "POST" path route := by
  rw [rawUpload] at h
  split at h
  · rename_i hMem
    cases h
    refine fits_exact ?_
    have hServed : uploadPaths.all (fun upload => allRoutes.contains { method := "POST", path := upload }) = true := by
      decide +kernel
    simpa using List.all_eq_true.mp hServed path (by simpa using hMem)
  · cases h

theorem dispatchPost_fits {path : String} {route : Route} (h : dispatchPost path = some route) :
    Fits "POST" path route := by
  rw [dispatchPost] at h
  split at h
  · rename_i hExact
    cases h
    simp only [Bool.or_eq_true, decide_eq_true_eq] at hExact
    obtain rfl | rfl := hExact
    · exact fits_exact (by decide)
    · exact fits_exact (by decide)
  · exact dispatchRegistry_fits h

end Handler

/-! ## Both backends -/

/-- A server bound to the loopback interface with the token `secret`. -/
def loopback : Site where
  rt := ⟨fun _ => true, List.map Char.toLower⟩
  allowedHosts := ["localhost", "127.0.0.1", "::1"]
  auth := ⟨some "secret", false, false, fun _ => false, fun _ => none⟩
  userRole := none
  fileStore := false
  servesLocalRoutes := true

end Bajutsu.Serve.Gate
