import Bajutsu.Lib.UrlSplit

/-!
# The request gate

The policy that both backends enforce: which paths are open, which callers are authorized, and what a machine or a
role may not request. Both backends then make the same checks in the same order.
-/

namespace Bajutsu.Serve.Gate

open UrlSplit

inductive PrincipalKind where
  | human
  | machine
  deriving DecidableEq

structure Principal where
  identity : Option String
  org : Option String := none
  kind : PrincipalKind := .human
  ciJob : Option (List (String × String)) := none

/-- The reads of a session that one request may make; a session may end between two of them. -/
structure SessionManager where
  token : Option String
  oauth : Bool
  oidc : Bool
  validSession : String → Bool
  principal : String → Option Principal

/-- The checks that `urlsplit` makes of a network location, and `str.lower`. -/
structure Runtime where
  validNetloc : List Char → Bool
  lower : List Char → List Char

def startsWith (path start : String) : Bool := start.toList.isPrefixOf path.toList

def endsWith (path last : String) : Bool := last.toList.isSuffixOf path.toList

/-! ## `gate` -/

section Policy

variable (rt : Runtime) (auth : SessionManager) (method path : String)

/-- Without an allowlist every host passes; `none` when its URL does not parse. -/
def hostAllowed (allowed : List String) (hostHeader : String) : Option Bool :=
  if allowed = [] then some true
  else (urlsplit rt.validNetloc ("//" ++ hostHeader).toList).map fun split =>
    match hostname rt.lower split.netloc with
    | none => false
    | some host => allowed.contains (String.ofList host)

def csrfOk (origin : Option String) (hostHeader : String) : Option Bool :=
  match origin with
  | none => some true
  | some origin =>
    if origin = "" then some true
    else (urlsplit rt.validNetloc origin.toList).map fun split => split.netloc = hostHeader.toList

def openGetPaths : List String := ["/", "/index.html", "/api/oauth/login", "/api/oauth/callback"]

def loginPath : String := "/api/login"

def oidcExchangePath : String := "/api/oidc/exchange"

def signedStorePrefix : String := "/api/store/objects/"

def isFrontendModule : Bool := startsWith path "/serve." && endsWith path ".mjs"

def isOpen (oidc : Bool) : Bool :=
  (method = "GET" && (openGetPaths.contains path || isFrontendModule path)) ||
    (method = "POST" && path = loginPath) || (oidc && method = "POST" && path = oidcExchangePath)

def isSignedStoreRoute : Bool := (method = "GET" || method = "PUT") && startsWith path signedStorePrefix

def isWorkerRoute : Bool :=
  startsWith path "/api/worker/" || (startsWith path "/api/runs/" && endsWith path "/upload-urls")

def SessionManager.checkToken (candidate : String) : Bool := auth.token = some candidate

def isAuthorized (authorization : String) (sessionValue : Option String) : Bool :=
  (startsWith authorization "Bearer " &&
      auth.checkToken (String.ofList (authorization.toList.drop "Bearer ".length)) && (!auth.oauth || isWorkerRoute path)) ||
    sessionValue.any auth.validSession

def principalFor (sessionValue : Option String) : Option Principal :=
  sessionValue.bind fun value => if value = "" then none else auth.principal value

def machinePaths : List (String × String) :=
  [("POST", "/api/artifacts/config"), ("POST", "/api/artifacts/scenarios"), ("POST", "/api/artifacts/binary"),
    ("GET", "/api/artifacts/exists"), ("POST", "/api/run"), ("GET", "/api/runs")]

def isMachineJobRoute : Bool :=
  startsWith path "/api/jobs/" && !(path.toList.drop "/api/jobs/".length).contains '/' &&
    "/api/jobs/".length < path.length

def forbiddenForMachine (org : Option String) : Bool :=
  org = none || (!machinePaths.contains (method, path) && !(method = "GET" && isMachineJobRoute path))

/-! ## `authz` -/

def rescanPath : String := "/api/runs/rescan"

def adminPaths : List String :=
  ["/api/config", "/api/config/restore", "/api/upload", "/api/artifacts/config", "/api/artifacts/scenarios",
    "/api/artifacts/binary", "/api/compose", "/api/apikey", "/api/claudecodetoken", "/api/gitcredential", "/api/secrets",
    "/api/provider", "/api/ant/login", rescanPath]

def editorPaths : List String :=
  ["/api/run", "/api/run-set", "/api/record", "/api/crawl", "/api/scenario", "/api/scenarios/upload", "/api/approve",
    "/api/capture/start", "/api/capture/mark", "/api/capture/finish"]

def requiredRole : Option String :=
  if method = "GET" && path = "/api/config/content" then some "admin"
  else if method = "GET" && path = "/api/artifacts/exists" then some "admin"
  else if method = "GET" && path = "/api/compose/current" then some "admin"
  else if method = "GET" && path = "/api/version/checkout" then some "admin"
  else if path = "/api/orgs" || startsWith path "/api/orgs/" then some "admin"
  else if (startsWith path "/api/runs/" || startsWith path "/api/crawl/runs/") &&
      !(method = "POST" && path = rescanPath) then
    if method = "DELETE" then some "editor"
    else if method = "POST" && (path = "/api/runs/bulk-delete" || endsWith path "/restore") then some "editor"
    else none
  else if method ≠ "POST" then none
  else if adminPaths.contains path then some "admin"
  else if editorPaths.contains path ||
      (startsWith path "/api/jobs/" && (endsWith path "/cancel" || endsWith path "/respond-human")) then some "editor"
  else none

def roleRank (role : String) : Nat := if role = "editor" then 1 else if role = "admin" then 2 else 0

def roleAllows (role required : String) : Bool := roleRank required ≤ roleRank role

/-- A user without a row, or with an empty role, is a viewer. -/
def forbiddenForRole (userRole : Option (String → Option String)) (login : String) : Bool :=
  match requiredRole method path, userRole with
  | some required, some userRole =>
    let role := (userRole login).getD ""
    !roleAllows (if role = "" then "viewer" else role) required
  | _, _ => false

end Policy

/-! ## The checks of one request -/

/-- A check that was made, on which path, and how it came out. -/
inductive Check where
  | authorized (path : String) (held : Bool)
  | machine (method path : String) (forbidden : Bool)
  | role (login method path : String) (forbidden : Bool)

/-- What an admitted request carries to its operation. -/
structure Admission where
  gateActor : Option String := none
  machineOrg : Option String := none
  ciJob : Option (List (String × String)) := none

inductive Verdict where
  | refused (error : String) (status : Nat)
  | raised
  | passed (admission : Admission)

/-- The server that both backends serve, and what the request shows of its caller. -/
structure Site where
  rt : Runtime
  allowedHosts : List String
  auth : SessionManager
  /-- The roles of the database, if one is wired. -/
  userRole : Option (String → Option String)
  /-- Whether this server is the `file://` store. -/
  fileStore : Bool
  servesLocalRoutes : Bool

structure Caller where
  authorization : String
  session : Option String

section Credentials

variable (site : Site) (caller : Caller) (method path : String)

def isMachine (principal : Option Principal) : Bool := principal.any fun p => p.kind = .machine

def admission (principal : Option Principal) : Admission where
  gateActor := principal.bind Principal.identity
  machineOrg := if isMachine principal then principal.bind Principal.org else none
  ciJob := if isMachine principal then principal.bind Principal.ciJob else none

/-- The role gate of a caller that is no machine. -/
def roleGate (principal : Option Principal) : List Check × Verdict :=
  match principal.bind Principal.identity, site.userRole with
  | some login, some _ =>
    let forbidden := forbiddenForRole method path site.userRole login
    ([.role login method path forbidden],
      if forbidden then .refused "forbidden" 403 else .passed (admission principal))
  | _, _ => ([], .passed (admission principal))

/-- The part of the gate that judges a request to an endpoint that is not open. -/
def credentialGate : List Check × Verdict :=
  if !isAuthorized site.auth path caller.authorization caller.session then
    ([.authorized path false], .refused "unauthorized" 401)
  else
    let principal := principalFor site.auth caller.session
    if isMachine principal then
      let forbidden := forbiddenForMachine method path (principal.bind Principal.org)
      ([.authorized path true, .machine method path forbidden],
        if forbidden then .refused "forbidden" 403 else .passed (admission principal))
    else
      let (checks, verdict) := roleGate site method path principal
      (.authorized path true :: checks, verdict)

/-- The caller was found authorized for the path, and the gate of its kind was asked about the path. -/
structure Checked (checks : List Check) : Prop where
  authorized : .authorized path true ∈ checks
  machine : ∀ principal, principalFor site.auth caller.session = some principal → principal.kind = .machine →
    .machine method path false ∈ checks
  role : ∀ principal login, principalFor site.auth caller.session = some principal → principal.kind ≠ .machine →
    principal.identity = some login → forbiddenForRole method path site.userRole login = false ∧
      (site.userRole.isSome = true → .role login method path false ∈ checks)

variable {site caller method path}

end Credentials

end Bajutsu.Serve.Gate
