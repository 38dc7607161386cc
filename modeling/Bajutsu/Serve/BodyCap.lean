import Bajutsu.Lib.PyText
import Bajutsu.Serve.DispatchTable

/-!
# How much of a request body is read

The local handler reads a body by its declared length, which may be negative: then it reads to the end. The
application counts the chunks as they come. Each has a cap for the bodies that it reads as JSON.
-/

namespace Bajutsu.Serve.BodyCap

open Dispatch FileSystem Gate PathPattern

/-! ## `json_body_cap` -/

def maxJsonBodyBytes : Nat := 32 * 1024 * 1024

/-- `Route.max_body`, which the table sets for what a worker relays. -/
def maxBody (route : Route) : Nat :=
  if route.path = "/api/worker/log" then 4 * 1024 * 1024
  else if route.path = "/api/worker/artifact" then 4 * (2 * 1024 * 1024)
  else if route.path = "/api/worker/handoff" then 2 * (8 * 1024 * 1024)
  else maxJsonBodyBytes

def jsonBodyCap (path : String) : Nat :=
  match matchRoute ROUTES "POST" path with
  | some route => maxBody route
  | none => maxJsonBodyBytes

/-! ## The local handler -/

/-- A request with the length that it declares and the bytes that the client sends before it closes its side. -/
structure Wire extends HandlerRequest where
  contentLength : Option String
  sent : Nat

/-- How many bytes of the body were read at once, and what came of the request. -/
structure Served where
  read : Nat
  handled : Handled

/-- `rfile.read(length)`: `-1` reads to the end, any other negative length is a `ValueError`. -/
def rfileRead (sent : Nat) (length : Int) : Option Nat :=
  if length < -1 then none else if length = -1 then some sent else some (min length.toNat sent)

section Handler

variable (site : Site) (int : String → Option Int) (wire : Wire)

/-- `int(self.headers.get("Content-Length") or 0)`; `none` is the `ValueError`. -/
def declared : Option Int :=
  match wire.contentLength with
  | none => some 0
  | some text => if text = "" then some 0 else int text

/-- A refusal after which the connection stays open: the declared body is read first. -/
def drain (refusal : Handled) : Served :=
  match declared int wire with
  | none => ⟨0, .raised⟩
  | some length =>
    if length = 0 then ⟨0, refusal⟩
    else match rfileRead wire.sent length with
      | none => ⟨0, .raised⟩
      | some read => ⟨read, refusal⟩

/-- A host that is not allowed is refused without a look at the body. -/
def refuse (error : String) (status : Nat) : Served :=
  if hostAllowed site.rt site.allowedHosts wire.host = some true then drain int wire (.refused error status)
  else ⟨0, .refused error status⟩

def readPost (path : String) : Served :=
  match rawUpload path with
  -- an upload is streamed to a file and never read at once
  | some route => ⟨0, .route (some route)⟩
  | none =>
    match declared int wire with
    | none => ⟨0, .raised⟩
    | some length =>
      if (jsonBodyCap path : Int) < length then
        ⟨0, .refused ("request body over " ++ toString (jsonBodyCap path) ++ " bytes") 413⟩
      else match csrfOk site.rt wire.origin wire.host with
        | none => ⟨0, .raised⟩
        | some false => drain int wire (.refused "cross-origin request blocked" 403)
        | some true =>
          match rfileRead wire.sent length with
          | none => ⟨0, .raised⟩
          | some read =>
            ⟨read, match wire.badBody with
              | some error => .refused error 400
              | none => .route (dispatchPost path)⟩

def readDelete (path : String) : Served :=
  match declared int wire with
  | none => ⟨0, .raised⟩
  | some _ =>
    match csrfOk site.rt wire.origin wire.host with
    | none => ⟨0, .raised⟩
    | some false => drain int wire (.refused "cross-origin request blocked" 403)
    | some true => ⟨0, .route (dispatchRegistry "DELETE" path)⟩

def serve : Served :=
  if !handlerMethods.contains wire.command then
    ⟨0, .refused ("Unsupported method (\x27" ++ wire.command ++ "\x27)") 501⟩
  else match (handlerGate site wire.toHandlerRequest).2 with
    | .refused error status => refuse site int wire error status
    | .raised => ⟨0, .raised⟩
    | .passed _ =>
      match wire.path site.rt with
      | none => ⟨0, .raised⟩
      | some path =>
        if wire.command = "GET" then ⟨0, doGet path⟩
        else if wire.command = "POST" then readPost site int wire path
        else readDelete site int wire path

end Handler

/-! ## The application -/

/-- The chunks of a body that are kept, how many bytes were received, and whether a chunk crossed the cap. -/
structure Kept where
  chunks : List (List UInt8) := []
  received : Nat := 0
  tooLarge : Bool := false

/-- The loop over the chunks: the one that crosses the cap is not kept. -/
def keepChunks (cap : Nat) (kept : List (List UInt8)) (received : Nat) : List (List UInt8) → Kept
  | [] => ⟨kept, received, false⟩
  | chunk :: chunks =>
    if cap < received + chunk.length then ⟨kept, received + chunk.length, true⟩
    else keepChunks cap (kept ++ [chunk]) (received + chunk.length) chunks

section Application

variable (isdigit : String → Bool) (int : String → Option Int)

/-- `_json_body` up to the parse; the length is the declared one, empty if there is none. -/
def jsonBody (cap : Nat) (length : String) (chunks : List (List UInt8)) : Kept :=
  if isdigit length then
    match int length with
    -- `int` may refuse what `isdigit` accepts: the request fails and nothing was read
    | none => {}
    | some declared => if (cap : Int) < declared then { tooLarge := true } else keepChunks cap [] 0 chunks
  else keepChunks cap [] 0 chunks

/-- The cap that the endpoint of a route passes on. -/
def appCap (route : Route) : Nat :=
  if route.path = loginPath || route.path = oidcExchangePath then jsonBodyCap route.path else maxBody route

/-- What the application keeps in memory of the body of a request. -/
def appKept (site : Site) (request : Request) (length : String) (chunks : List (List UInt8)) : Kept :=
  match (securityGate site request).2 with
  | .passed _ =>
    match appRoute site request.method request.path.toList with
    | none => {}
    | some (route, _) =>
      if route.method = "POST" && !uploadPaths.contains route.path then
        jsonBody isdigit int (appCap route) length chunks
      else {}
  | _ => {}

end Application

/-! ## The caps of both backends -/

def relayPaths : List String := ["/api/worker/log", "/api/worker/artifact", "/api/worker/handoff"]

theorem maxBody_le (route : Route) : maxBody route ≤ maxJsonBodyBytes := by
  rw [maxBody, maxJsonBodyBytes]
  repeat' split
  all_goals omega

theorem maxBody_eq {route : Route} (h : route.path ∉ relayPaths) : maxBody route = maxJsonBodyBytes := by
  simp only [relayPaths, List.mem_cons, List.not_mem_nil, or_false, not_or] at h
  obtain ⟨hLog, hArtifact, hHandoff⟩ := h
  rw [maxBody, if_neg hLog, if_neg hArtifact, if_neg hHandoff]

theorem capped_plain {route : Route} (h : route.path ∈ relayPaths ++ [loginPath, oidcExchangePath]) :
    hasParam route.path.toList = false := by
  have hAll : (relayPaths ++ [loginPath, oidcExchangePath]).all (fun path => !hasParam path.toList) = true := by decide
  simpa using List.all_eq_true.mp hAll route.path h

theorem relays_uniform : ROUTES.all (fun route => !relayPaths.contains route.path || !route.offLoop) = true := by
  decide +kernel

theorem matchTemplate_plain {template path : String} (hPlain : hasParam template.toList = false)
    (h : (matchTemplate template path).isSome = true) : template = path := by
  rw [hasParam] at hPlain
  rw [matchTemplate, hPlain, Bool.not_false, if_pos rfl] at h
  split at h
  · assumption
  · cases h

/-- The endpoint that a path is dispatched to caps its body no later than the table does for the path. -/
theorem appCap_le {site : Site} {path : String} {route : Route} {params : List (Name × Text)}
    (h : appRoute site "POST" path.toList = some (route, params)) : appCap route ≤ jsonBodyCap path := by
  have hServes := appRoute_serves h
  have hMem := fastapiRoutes_subset site hServes.mem
  rw [appCap]
  split
  · rename_i hOwn
    have hPlain : hasParam route.path.toList = false := by
      apply capped_plain
      simp only [Bool.or_eq_true, decide_eq_true_eq] at hOwn
      obtain hOwn | hOwn := hOwn
      · simp [hOwn]
      · simp [hOwn]
    obtain ⟨hSame, -⟩ := (bind_plain_iff hPlain).mp hServes.binds
    rw [String.toList_inj.mp hSame]
  · rw [jsonBodyCap]
    split
    · rename_i listed hListed
      by_cases hRelay : listed.path ∈ relayPaths
      · have hFound := List.find?_some hListed
        simp only [Bool.and_eq_true, decide_eq_true_eq] at hFound
        obtain ⟨hMethod, hMatch⟩ := hFound
        have hPlain := capped_plain (List.mem_append_left _ hRelay)
        have hUniform : listed.offLoop = false := by
          have hAll := List.all_eq_true.mp relays_uniform listed (List.mem_of_find?_eq_some hListed)
          simpa [hRelay] using hAll
        have hListedMem : listed ∈ allRoutes :=
          List.mem_append_right _ (List.mem_filter.mpr ⟨List.mem_of_find?_eq_some hListed, by rw [hUniform]; rfl⟩)
        have hBinds : bind (compilePath listed.path.toList) path.toList = some [] :=
          (bind_plain_iff hPlain).mpr ⟨by rw [matchTemplate_plain hPlain hMatch], rfl⟩
        have hSame : route.path = listed.path := by
          obtain hSame | ⟨-, hRun⟩ :=
            same_path hMem hListedMem (hServes.method.trans hMethod.symm) hServes.binds hBinds
          · exact hSame
          · have hNone : relayPaths.all (fun path => !isRunPath path) = true := by decide
            have hNot := List.all_eq_true.mp hNone listed.path hRelay
            rw [hRun] at hNot
            cases hNot
        rw [maxBody, maxBody, hSame]
      · rw [maxBody_eq hRelay]
        exact maxBody_le route
    · exact maxBody_le route

/-! ## What the application keeps -/

section Application

variable {isdigit : String → Bool} {int : String → Option Int}

/-- What is kept is within the cap, and what was received exceeds it by one chunk at most. -/
structure Kept.Within (cap : Nat) (chunks : List (List UInt8)) (kept : Kept) : Prop where
  held : kept.chunks.flatten.length ≤ cap
  received : ∀ longest, (∀ chunk ∈ chunks, chunk.length ≤ longest) → kept.received ≤ cap + longest

theorem Kept.Within.mono {cap cap' : Nat} {chunks : List (List UInt8)} {kept : Kept} (h : kept.Within cap chunks)
    (hCap : cap ≤ cap') : kept.Within cap' chunks := by
  constructor
  · exact h.held.trans hCap
  · intro longest hLongest
    have hReceived := h.received longest hLongest
    omega

theorem within_nothing (cap : Nat) (chunks : List (List UInt8)) (tooLarge : Bool) :
    Kept.Within cap chunks { tooLarge := tooLarge } := ⟨Nat.zero_le _, fun _ _ => Nat.zero_le _⟩

theorem keepChunks_within {cap : Nat} (chunks : List (List UInt8)) :
    ∀ {kept : List (List UInt8)} {received : Nat}, kept.flatten.length = received → received ≤ cap →
      (keepChunks cap kept received chunks).Within cap chunks := by
  induction chunks with
  | nil =>
    intro kept received hKept hCap
    constructor
    · exact hKept ▸ hCap
    · intro longest _
      exact hCap.trans (Nat.le_add_right _ _)
  | cons chunk chunks ih =>
    intro kept received hKept hCap
    rw [keepChunks]
    split
    · constructor
      · exact hKept ▸ hCap
      · intro longest hLongest
        have hChunk := hLongest chunk List.mem_cons_self
        dsimp only
        omega
    · rename_i hFits
      have hNext : (kept ++ [chunk]).flatten.length = received + chunk.length := by
        rw [List.flatten_append, List.length_append, hKept, List.flatten_singleton]
      have hWithin := ih hNext (by omega)
      constructor
      · exact hWithin.held
      · intro longest hLongest
        apply hWithin.received
        intro other hOther
        exact hLongest other (List.mem_cons_of_mem _ hOther)

theorem jsonBody_within (cap : Nat) (length : String) (chunks : List (List UInt8)) :
    (jsonBody isdigit int cap length chunks).Within cap chunks := by
  have hLoop : (keepChunks cap [] 0 chunks).Within cap chunks := keepChunks_within chunks rfl (Nat.zero_le _)
  rw [jsonBody]
  split
  · split
    · exact within_nothing cap chunks false
    · split
      · exact within_nothing cap chunks true
      · exact hLoop
  · exact hLoop

theorem appKept_within (site : Site) (request : Request) (length : String) (chunks : List (List UInt8)) :
    (appKept isdigit int site request length chunks).Within (jsonBodyCap request.path) chunks := by
  have hNothing := within_nothing (jsonBodyCap request.path) chunks false
  rw [appKept]
  split
  · split
    · exact hNothing
    · rename_i route params hRoute
      split
      · rename_i hJson
        simp only [Bool.and_eq_true, decide_eq_true_eq] at hJson
        rw [← (appRoute_serves hRoute).method, hJson.1] at hRoute
        exact (jsonBody_within (appCap route) length chunks).mono (appCap_le hRoute)
      · exact hNothing
  · exact hNothing

end Application

/-! ## What the local handler reads -/

section Handler

variable (site : Site) (int : String → Option Int) (wire : Wire)

/-- The body is read before its length is compared with the cap: the credentials are refused, or it is a deletion
from another origin. -/
def Drained : Prop :=
  wire.command ∈ handlerMethods ∧
    ((hostAllowed site.rt site.allowedHosts wire.host = some true ∧
        ∃ error status, (handlerGate site wire.toHandlerRequest).2 = .refused error status) ∨
      (wire.command = "DELETE" ∧ (∃ admitted, (handlerGate site wire.toHandlerRequest).2 = .passed admitted) ∧
        csrfOk site.rt wire.origin wire.host = some false))

/-- The body is read, or drained, after its length is compared with the cap. -/
def Compared (path : String) : Prop :=
  wire.command = "POST" ∧ (∃ admitted, (handlerGate site wire.toHandlerRequest).2 = .passed admitted) ∧
    rawUpload path = none ∧ (csrfOk site.rt wire.origin wire.host).isSome = true

/-- The bytes that a read of the declared length returns. -/
def taken : Nat := ((declared int wire).bind (rfileRead wire.sent)).getD 0

variable {site int wire}

theorem taken_le_iff {length : Int} (hLength : declared int wire = some length) (cap : Nat) :
    taken int wire ≤ cap ↔ (length = -1 ∨ (cap : Int) < length → wire.sent ≤ cap) := by
  rw [taken, hLength, Option.bind_some, rfileRead]
  split
  · rw [Option.getD_none]
    omega
  split
  · rw [Option.getD_some]
    omega
  · rw [Option.getD_some]
    omega

theorem drain_read (refusal : Handled) : (drain int wire refusal).read = taken int wire := by
  rw [drain, taken]
  cases declared int wire with
  | none => rfl
  | some length =>
    dsimp only [Option.bind_some]
    split
    · rename_i hZero
      rw [hZero]
      simp [rfileRead]
    · split
      · rename_i hNone
        rw [hNone]
        rfl
      · rename_i hSome
        rw [hSome]
        rfl

theorem drain_handled {length : Int} (hLength : declared int wire = some length) (hRead : -1 ≤ length)
    (refusal : Handled) : (drain int wire refusal).handled = refusal := by
  rw [drain, hLength]
  dsimp only
  split
  · rfl
  · rw [rfileRead, if_neg (by omega)]
    split
    · rename_i hNone
      split at hNone
      · cases hNone
      · cases hNone
    · rfl

/-- With a length that can be read, a request comes out as it does for the handler that is given what its body is. -/
theorem serve_handled {length : Int} (hLength : declared int wire = some length) (hRead : -1 ≤ length)
    (hOversized : ∀ path, wire.path site.rt = some path → wire.oversized =
      if (jsonBodyCap path : Int) < length then some (toString (jsonBodyCap path)) else none) :
    (serve site int wire).handled = handle site wire.toHandlerRequest := by
  have hFile : (rfileRead wire.sent length).isSome = true := by
    rw [rfileRead, if_neg (by omega)]
    split
    · rfl
    · rfl
  obtain ⟨read, hFile⟩ := Option.isSome_iff_exists.mp hFile
  rw [serve, handle]
  split
  · rfl
  cases (handlerGate site wire.toHandlerRequest).2 with
  | refused error status =>
    dsimp only
    rw [refuse]
    split
    · exact drain_handled hLength hRead _
    · rfl
  | raised => rfl
  | passed admitted =>
    dsimp only
    cases hPath : wire.path site.rt with
    | none => rfl
    | some path =>
      dsimp only
      split
      · rfl
      split
      · rw [readPost, doPost, hOversized path hPath, hLength]
        cases rawUpload path with
        | some route => rfl
        | none =>
          dsimp only
          split
          · rfl
          rw [sameOrigin, hFile]
          cases csrfOk site.rt wire.origin wire.host with
          | none => rfl
          | some same =>
            cases same with
            | false => exact drain_handled hLength hRead _
            | true => rfl
      · rw [readDelete, doDelete, sameOrigin, hLength]
        cases csrfOk site.rt wire.origin wire.host with
        | none => rfl
        | some same =>
          cases same with
          | false => exact drain_handled hLength hRead _
          | true => rfl

/-- What a request reads of its body: the ways that it can go. -/
inductive Reads (site : Site) (int : String → Option Int) (wire : Wire) (path : String) : Nat → Prop where
  | drained (hDrained : Drained site wire) (hNot : ¬Compared site wire path) :
    Reads site int wire path (taken int wire)
  | refused (hNot : ¬Drained site wire) {length : Int} (hLength : declared int wire = some length)
    (hCap : (jsonBodyCap path : Int) < length) : Reads site int wire path 0
  | compared (hNot : ¬Drained site wire) (hCompared : Compared site wire path) {length : Int}
    (hLength : declared int wire = some length) (hCap : length ≤ jsonBodyCap path) :
    Reads site int wire path (taken int wire)
  | unread (hNot : ¬Drained site wire) (hCompared : Compared site wire path → declared int wire = none) :
    Reads site int wire path 0

theorem not_drained_of_passed {admitted : Admission}
    (hPassed : (handlerGate site wire.toHandlerRequest).2 = .passed admitted)
    (h : wire.command = "DELETE" → csrfOk site.rt wire.origin wire.host ≠ some false) : ¬Drained site wire := by
  rintro ⟨-, ⟨-, error, status, hRefused⟩ | ⟨hDelete, -, hCross⟩⟩
  · cases hPassed.symm.trans hRefused
  · exact h hDelete hCross

theorem readPost_reads {path : String} {admitted : Admission} (hPost : wire.command = "POST")
    (hPassed : (handlerGate site wire.toHandlerRequest).2 = .passed admitted) :
    Reads site int wire path (readPost site int wire path).read := by
  have hNot : ¬Drained site wire := by
    apply not_drained_of_passed hPassed
    intro hDelete
    rw [hPost] at hDelete
    exact absurd hDelete (by decide)
  rw [readPost]
  split
  · rename_i hUpload
    refine .unread hNot fun hCompared => ?_
    rw [hCompared.2.2.1] at hUpload
    cases hUpload
  rename_i hJson
  split
  · rename_i hNone
    exact .unread hNot fun _ => hNone
  rename_i length hLength
  split
  · rename_i hCap
    exact .refused hNot hLength hCap
  rename_i hCap
  split
  · rename_i hOrigin
    refine .unread hNot fun hCompared => ?_
    have hSome := hCompared.2.2.2
    rw [hOrigin] at hSome
    cases hSome
  · rename_i hOrigin
    rw [drain_read]
    exact .compared hNot ⟨hPost, ⟨admitted, hPassed⟩, hJson, by rw [hOrigin]; rfl⟩ hLength (by omega)
  · rename_i hOrigin
    have hTaken := Reads.compared hNot ⟨hPost, ⟨admitted, hPassed⟩, hJson, by rw [hOrigin]; rfl⟩ hLength
      (show length ≤ jsonBodyCap path by omega)
    rw [taken, hLength, Option.bind_some] at hTaken
    split
    · rename_i hNone
      rw [hNone] at hTaken
      exact hTaken
    · rename_i hSome
      rw [hSome] at hTaken
      exact hTaken

theorem readDelete_reads {path : String} {admitted : Admission} (hDelete : wire.command = "DELETE")
    (hPassed : (handlerGate site wire.toHandlerRequest).2 = .passed admitted) :
    Reads site int wire path (readDelete site int wire path).read := by
  have hNotCompared : ¬Compared site wire path := by
    intro hCompared
    rw [hCompared.1] at hDelete
    exact absurd hDelete (by decide)
  have hDrained : csrfOk site.rt wire.origin wire.host = some false → Drained site wire :=
    fun hCross => ⟨by rw [hDelete]; decide, .inr ⟨hDelete, ⟨admitted, hPassed⟩, hCross⟩⟩
  have hUnread : csrfOk site.rt wire.origin wire.host ≠ some false → Reads site int wire path 0 := fun hOrigin =>
    .unread (not_drained_of_passed hPassed fun _ => hOrigin) fun hCompared => absurd hCompared hNotCompared
  rw [readDelete]
  split
  · rename_i hNone
    by_cases hCross : csrfOk site.rt wire.origin wire.host = some false
    · have hReads : Reads site int wire path (taken int wire) := .drained (hDrained hCross) hNotCompared
      rw [taken, hNone] at hReads
      exact hReads
    · exact hUnread hCross
  · split
    · rename_i hOrigin
      exact hUnread (by rw [hOrigin]; exact nofun)
    · rename_i hOrigin
      rw [drain_read]
      exact .drained (hDrained hOrigin) hNotCompared
    · rename_i hOrigin
      exact hUnread (by rw [hOrigin]; exact nofun)

theorem serve_reads {path : String} (hPath : wire.path site.rt = some path) :
    Reads site int wire path (serve site int wire).read := by
  have hNotCompared {other : Verdict} (hGate : (handlerGate site wire.toHandlerRequest).2 = other)
      (hOther : ∀ admitted, other ≠ .passed admitted) : ¬Compared site wire path := by
    rintro ⟨-, ⟨admitted, hPassed⟩, -⟩
    exact hOther admitted (hGate.symm.trans hPassed)
  rw [serve]
  split
  · rename_i hMethod
    have hNot : wire.command ∉ handlerMethods := by simpa using hMethod
    refine .unread (fun hDrained => hNot hDrained.1) fun hCompared => ?_
    rw [hCompared.1] at hNot
    exact absurd (by decide) hNot
  rename_i hMethod
  have hKnown : wire.command ∈ handlerMethods := by simpa using hMethod
  split
  · rename_i error status hRefused
    have hNot := hNotCompared hRefused nofun
    rw [refuse]
    split
    · rename_i hHost
      rw [drain_read]
      exact .drained ⟨hKnown, .inl ⟨hHost, error, status, hRefused⟩⟩ hNot
    · rename_i hHost
      refine .unread ?_ fun hCompared => absurd hCompared hNot
      rintro ⟨-, ⟨hAllowed, -⟩ | ⟨-, ⟨admitted, hPassed⟩, -⟩⟩
      · exact hHost hAllowed
      · cases hRefused.symm.trans hPassed
  · rename_i hRaised
    refine .unread ?_ fun hCompared => absurd hCompared (hNotCompared hRaised nofun)
    rintro ⟨-, ⟨-, error, status, hRefused⟩ | ⟨-, ⟨admitted, hPassed⟩, -⟩⟩
    · cases hRaised.symm.trans hRefused
    · cases hRaised.symm.trans hPassed
  · rename_i admitted hPassed
    rw [hPath]
    dsimp only
    split
    · rename_i hGet
      refine .unread (not_drained_of_passed hPassed fun hDelete => ?_) fun hCompared => ?_
      · rw [hGet] at hDelete
        exact absurd hDelete (by decide)
      · have hPost := hCompared.1
        rw [hGet] at hPost
        exact absurd hPost (by decide)
    split
    · rename_i hPost
      exact readPost_reads hPost hPassed
    · rename_i hNotGet hNotPost
      have hDelete : wire.command = "DELETE" := by
        simpa [handlerMethods, hNotGet, hNotPost] using hKnown
      exact readDelete_reads hDelete hPassed

/-- The handler reads no more of a body than the cap of its path allows. -/
def Capped (site : Site) (int : String → Option Int) (wire : Wire) : Prop :=
  ∀ path, wire.path site.rt = some path → (serve site int wire).read ≤ jsonBodyCap path

/-- Where the body is drained unseen, or its length is `-1`, the client sends no more than the cap. -/
def SendsLittle (site : Site) (int : String → Option Int) (wire : Wire) : Prop :=
  ∀ path length, wire.path site.rt = some path → declared int wire = some length →
    (Drained site wire → length = -1 ∨ (jsonBodyCap path : Int) < length → wire.sent ≤ jsonBodyCap path) ∧
      (Compared site wire path → length = -1 → wire.sent ≤ jsonBodyCap path)

theorem capped_iff : Capped site int wire ↔ SendsLittle site int wire := by
  constructor
  · intro h path length hPath hLength
    have hRead := h path hPath
    have hReads : Reads site int wire path (serve site int wire).read := serve_reads hPath
    generalize (serve site int wire).read = read at hRead hReads
    cases hReads with
    | drained _ hNot =>
      exact ⟨fun _ => (taken_le_iff hLength _).mp hRead, fun hCompared => absurd hCompared hNot⟩
    | refused hNot hDeclared hCap =>
      obtain rfl := Option.some.inj (hLength.symm.trans hDeclared)
      exact ⟨fun hDrained => absurd hDrained hNot, fun _ hEnd => by omega⟩
    | compared hNot _ _ _ =>
      refine ⟨fun hDrained => absurd hDrained hNot, fun _ hEnd => ?_⟩
      exact (taken_le_iff hLength _).mp hRead (.inl hEnd)
    | unread hNot hUnread =>
      refine ⟨fun hDrained => absurd hDrained hNot, fun hCompared => ?_⟩
      cases hLength.symm.trans (hUnread hCompared)
  · intro h path hPath
    have hReads : Reads site int wire path (serve site int wire).read := serve_reads hPath
    generalize (serve site int wire).read = read at hReads
    cases hReads with
    | drained hDrained _ =>
      cases hDeclared : declared int wire with
      | none =>
        rw [taken, hDeclared]
        exact Nat.zero_le _
      | some length => exact (taken_le_iff hDeclared _).mpr ((h path length hPath hDeclared).1 hDrained)
    | refused => exact Nat.zero_le _
    | compared _ hCompared hDeclared hCap =>
      apply (taken_le_iff hDeclared _).mpr
      rintro (hEnd | hOver)
      · exact (h path _ hPath hDeclared).2 hCompared hEnd
      · omega
    | unread => exact Nat.zero_le _

end Handler

/-- The handler reads no more than the cap exactly when the client sends little where it does not compare, or reads to
the end; the application always keeps within the cap. -/
theorem json_body_capped_iff (site : Site) (isdigit : String → Bool) (int : String → Option Int) :
    (∀ wire, Capped site int wire ↔ SendsLittle site int wire) ∧
      ∀ request length chunks,
        (appKept isdigit int site request length chunks).Within (jsonBodyCap request.path) chunks :=
  ⟨fun _ => capped_iff, fun request length chunks => appKept_within site request length chunks⟩

/-- `int` on a text of digits. -/
def digitsInt (text : String) : Option Int :=
  if text.toList.all PyText.isDigit then (PyText.intOf text.toList).map Int.ofNat else none

/-- A caller without a credential that declares, and sends, a body over the cap. -/
def strangersBody : Wire where
  command := "POST"
  target := "/api/run"
  host := "localhost:8765"
  caller := ⟨"", none⟩
  contentLength := some "40000000"
  sent := 40000000

theorem json_body_uncapped : ¬∀ (site : Site) (int : String → Option Int) (wire : Wire), Capped site int wire := by
  intro hAll
  have hCapped := hAll loopback digitsInt strangersBody "/api/run" (by decide +kernel)
  have hCap : jsonBodyCap "/api/run" = 33554432 := by decide +kernel
  have hRead : (serve loopback digitsInt strangersBody).read = 40000000 := by decide +kernel
  omega

end Bajutsu.Serve.BodyCap
