import Bajutsu.Lib.AsciiText
import Bajutsu.Serve.FileObjectKeys
import Bajutsu.Serve.Gate

/-!
# The routes of both backends

The table that both backends dispatch from, the routes that each serves on its own, and which routes are open. A path
that a route matches starts with what its template says before the first parameter.
-/

namespace Bajutsu.Serve.Gate

open FileSystem

/-- An endpoint: `off_loop` routes are dispatched by each backend itself, `local_only` ones not by a hosted one. -/
structure Route where
  method : String
  path : String
  offLoop : Bool := false
  localOnly : Bool := false
  deriving DecidableEq

def ROUTES : List Route :=
  [{ method := "GET", path := "/api/jobs/{job_id}/events", offLoop := true },
    { method := "GET", path := "/runs/{run_id}/archive.zip", offLoop := true },
    { method := "GET", path := "/api/capture/screenshot", offLoop := true, localOnly := true },
    { method := "GET", path := "/runs/{rel:path}", offLoop := true },
    { method := "GET", path := "/", offLoop := true }, { method := "GET", path := "/index.html", offLoop := true },
    { method := "GET", path := "/api/scenarios" }, { method := "GET", path := "/api/targets" },
    { method := "GET", path := "/api/version" }, { method := "GET", path := "/api/version/checkout" },
    { method := "GET", path := "/api/config" }, { method := "GET", path := "/api/config/content" },
    { method := "GET", path := "/api/server" }, { method := "GET", path := "/api/fs" },
    { method := "GET", path := "/api/apikey" }, { method := "GET", path := "/api/claudecodetoken" },
    { method := "GET", path := "/api/gitcredential" }, { method := "GET", path := "/api/secrets" },
    { method := "GET", path := "/api/provider" }, { method := "GET", path := "/api/themecontract" },
    { method := "GET", path := "/api/ant/login", localOnly := true }, { method := "GET", path := "/api/simulators" },
    { method := "GET", path := "/api/runs" }, { method := "GET", path := "/api/orgs" },
    { method := "GET", path := "/api/metrics/targets" }, { method := "GET", path := "/api/crawl/runs" },
    { method := "GET", path := "/api/runs/trash" }, { method := "GET", path := "/api/artifacts/exists" },
    { method := "GET", path := "/api/compose/current" }, { method := "GET", path := "/api/scenario" },
    { method := "GET", path := "/api/schema" }, { method := "GET", path := "/api/jobs/{job_id}" },
    { method := "GET", path := "/api/environments" }, { method := "GET", path := "/metrics" },
    { method := "GET", path := "/stats" }, { method := "GET", path := "/flakiness" },
    { method := "GET", path := "/usage" }, { method := "GET", path := "/coverage" },
    { method := "GET", path := "/api/oauth/login", offLoop := true },
    { method := "GET", path := "/api/oauth/callback", offLoop := true },
    { method := "POST", path := "/api/upload", offLoop := true },
    { method := "POST", path := "/api/artifacts/config", offLoop := true },
    { method := "POST", path := "/api/artifacts/scenarios", offLoop := true },
    { method := "POST", path := "/api/artifacts/binary", offLoop := true },
    { method := "POST", path := "/api/scenarios/upload", offLoop := true },
    { method := "POST", path := "/api/login", offLoop := true },
    { method := "POST", path := "/api/oidc/exchange", offLoop := true }, { method := "POST", path := "/api/config" },
    { method := "POST", path := "/api/apikey" }, { method := "POST", path := "/api/claudecodetoken" },
    { method := "POST", path := "/api/gitcredential" }, { method := "POST", path := "/api/provider" },
    { method := "POST", path := "/api/secrets" }, { method := "POST", path := "/api/theme" },
    { method := "POST", path := "/api/compose" }, { method := "POST", path := "/api/ant/login", localOnly := true },
    { method := "POST", path := "/api/run" }, { method := "POST", path := "/api/run-set" },
    { method := "POST", path := "/api/config/restore" }, { method := "POST", path := "/api/orgs" },
    { method := "POST", path := "/api/org" }, { method := "POST", path := "/api/orgs/{slug}/membership" },
    { method := "POST", path := "/api/orgs/{slug}/machine-sessions/revoke" },
    { method := "POST", path := "/api/record" }, { method := "POST", path := "/api/crawl" },
    { method := "POST", path := "/api/triage" }, { method := "POST", path := "/api/scenario" },
    { method := "POST", path := "/api/lint" }, { method := "POST", path := "/api/scenario/apply-selector" },
    { method := "POST", path := "/api/scenario/enrich-apply" }, { method := "POST", path := "/api/audit" },
    { method := "POST", path := "/api/codegen" }, { method := "POST", path := "/api/approve" },
    { method := "POST", path := "/api/scenario/resolve" }, { method := "POST", path := "/api/enrich" },
    { method := "POST", path := "/api/doctor" }, { method := "POST", path := "/api/coverage" },
    { method := "POST", path := "/api/capture/start", localOnly := true },
    { method := "POST", path := "/api/capture/mark", localOnly := true },
    { method := "POST", path := "/api/capture/finish", localOnly := true },
    { method := "POST", path := "/api/capture/resolve", localOnly := true },
    { method := "POST", path := "/api/capture/close", localOnly := true },
    { method := "POST", path := "/api/worker/lease" }, { method := "POST", path := "/api/worker/heartbeat" },
    { method := "POST", path := "/api/worker/log" }, { method := "POST", path := "/api/worker/artifact" },
    { method := "POST", path := "/api/worker/handoff" },
    { method := "POST", path := "/api/worker/handoff-response" },
    { method := "POST", path := "/api/worker/batch-run" }, { method := "POST", path := "/api/worker/result" },
    { method := "POST", path := "/api/worker/artifact-urls" },
    { method := "POST", path := "/api/worker/scenario-url" },
    { method := "POST", path := "/api/jobs/{job_id}/cancel" },
    { method := "POST", path := "/api/jobs/{job_id}/respond-human" },
    { method := "POST", path := "/api/runs/{run_id}/upload-urls" },
    { method := "POST", path := "/api/runs/bulk-delete" }, { method := "POST", path := "/api/runs/rescan" },
    { method := "POST", path := "/api/runs/{run_id}/restore" },
    { method := "DELETE", path := "/api/crawl/runs/{run_id}" }, { method := "DELETE", path := "/api/runs/{run_id}" },
    { method := "DELETE", path := "/api/orgs/{slug}" }]

/-! ## Templates -/

/-- The name of a parameter, if the segment is one. -/
def parameter (segment : Name) : Option Name :=
  if segment.head? = some '{' && segment.getLast? = some '}' then some segment.tail.dropLast else none

def isGreedy (name : Name) : Bool := ":path".toList.isSuffixOf name

def matchSegments : List Name → List Name → Option (List (Name × Text))
  | [], [] => some []
  | [], _ :: _ => none
  | segment :: template, path =>
    match parameter segment with
    | some name =>
      if isGreedy name then some [(name.take (name.length - ":path".length), joined path)]
      else match path with
        | [] => none
        | value :: path => (matchSegments template path).map ((name, value) :: ·)
    | none => match path with
      | [] => none
      | value :: path => if value = segment then matchSegments template path else none

/-- `_match_template`: the parameters that the path binds. -/
def matchTemplate (template path : String) : Option (List (Name × Text)) :=
  if !template.toList.contains '{' then (if template = path then some [] else none)
  else matchSegments (segments template.toList) (segments path.toList)

def matchRoute (routes : List Route) (method path : String) : Option Route :=
  routes.find? fun route => route.method = method && (matchTemplate route.path path).isSome

/-- What a template says before its first parameter. -/
def literal (template : Text) : Text := template.takeWhile (· ≠ '{')

theorem literal_append {front : Text} (h : '{' ∉ front) (back : Text) : literal (front ++ back) = front ++ literal back := by
  apply List.takeWhile_append_of_pos
  intro c hMem
  exact decide_eq_true fun hSame => h (hSame ▸ hMem)

theorem literal_front {front : Text} (h : '{' ∈ front) (back : Text) : literal (front ++ back) <+: front := by
  rw [literal, List.takeWhile_append, if_neg]
  · exact List.takeWhile_prefix _
  · intro hAll
    have hWhole := List.takeWhile_eq_self_iff.mp ((List.takeWhile_prefix _).eq_of_length hAll) '{' h
    exact absurd hWhole (by decide)

theorem joined_cons_prefix (name : Name) (names : List Name) : ∃ back, joined (name :: names) = name ++ back := by
  cases names with
  | nil => exact ⟨[], by rw [joined_singleton, List.append_nil]⟩
  | cons other names => exact ⟨_, joined_cons (List.cons_ne_nil other names)⟩

theorem parameter_head {segment name : Name} (h : parameter segment = some name) : ∃ rest, segment = '{' :: rest := by
  rw [parameter] at h
  split at h
  · rename_i hBraces
    simp only [Bool.and_eq_true, decide_eq_true_eq] at hBraces
    obtain ⟨hFirst, -⟩ := hBraces
    cases segment with
    | nil => cases hFirst
    | cons c rest =>
      obtain rfl := Option.some.inj hFirst
      exact ⟨rest, rfl⟩
  · cases h

/-- No parameter of the template takes the rest of the path. -/
def Bounded (template : List Name) : Prop :=
  ∀ segment ∈ template, ∀ name, parameter segment = some name → isGreedy name = false

theorem matchSegments_nil {path : List Name} (h : (matchSegments [] path).isSome = true) : path = [] := by
  cases path with
  | nil => rfl
  | cons value path => cases h

theorem matchSegments_ne_nil {template path : List Name} (hBounded : Bounded template) (hNe : template ≠ [])
    (h : (matchSegments template path).isSome = true) : path ≠ [] := by
  rintro rfl
  cases template with
  | nil => exact hNe rfl
  | cons segment template =>
    rw [matchSegments] at h
    split at h
    · rename_i name hName
      rw [hBounded segment List.mem_cons_self name hName] at h
      cases h
    · cases h

/-- A path that is matched starts with the literal part of the template. -/
theorem matchSegments_prefix {template path : List Name} (hBounded : Bounded template)
    (h : (matchSegments template path).isSome = true) : literal (joined template) <+: joined path := by
  induction template generalizing path with
  | nil => exact List.nil_prefix
  | cons segment template ih =>
    have hLater : Bounded template := fun other hMem => hBounded other (List.mem_cons_of_mem _ hMem)
    rw [matchSegments.eq_def] at h
    dsimp only at h
    split at h
    · rename_i name hName
      obtain ⟨rest, rfl⟩ := parameter_head hName
      obtain ⟨back, hJoined⟩ := joined_cons_prefix ('{' :: rest) template
      rw [hJoined]
      exact List.nil_prefix
    · split at h
      · cases h
      · rename_i value path
        split at h
        · rename_i hSame
          subst hSame
          obtain ⟨back, hJoined⟩ := joined_cons_prefix value path
          by_cases hBrace : '{' ∈ value
          · obtain ⟨back', hTemplate⟩ := joined_cons_prefix value template
            rw [hTemplate, hJoined]
            exact (literal_front hBrace back').trans (List.prefix_append _ _)
          · cases template with
            | nil =>
              obtain rfl := matchSegments_nil h
              exact List.takeWhile_prefix _
            | cons next template =>
              have hNext := matchSegments_ne_nil hLater (List.cons_ne_nil next template) h
              rw [joined_cons (List.cons_ne_nil next template), joined_cons hNext, literal_append hBrace]
              refine (List.prefix_append_right_inj value).mpr ?_
              change '/' :: literal (joined (next :: template)) <+: '/' :: joined path
              exact List.cons_prefix_cons.mpr ⟨rfl, ih hLater h⟩
        · cases h

theorem matchTemplate_prefix {template path : String} (hBounded : Bounded (segments template.toList))
    (h : (matchTemplate template path).isSome = true) : literal template.toList <+: path.toList := by
  rw [matchTemplate] at h
  split at h
  · split at h
    · rename_i hSame
      rw [hSame]
      exact List.takeWhile_prefix _
    · cases h
  · have hPrefix := matchSegments_prefix hBounded h
    rwa [joined_segments, joined_segments] at hPrefix

/-! ## The routes that each backend serves -/

/-- The routes that the application declares itself, besides the table. -/
def appRoutes : List Route :=
  [{ method := "GET", path := "/" }, { method := "GET", path := "/index.html" },
    { method := "GET", path := "/serve.{name}.mjs" }, { method := "GET", path := "/runs/{run_id}/archive.zip" },
    { method := "GET", path := "/runs/{rel:path}" }, { method := "GET", path := "/api/jobs/{job_id}/events" },
    { method := "POST", path := loginPath }, { method := "POST", path := oidcExchangePath },
    { method := "GET", path := "/api/oauth/login" }, { method := "GET", path := "/api/oauth/callback" },
    { method := "POST", path := "/api/upload" }, { method := "POST", path := "/api/artifacts/config" },
    { method := "POST", path := "/api/artifacts/scenarios" }, { method := "POST", path := "/api/artifacts/binary" },
    { method := "POST", path := "/api/scenarios/upload" }]

def storeRoutes : List Route :=
  [{ method := "GET", path := signedStorePrefix ++ "{key:path}" }, { method := "PUT", path := signedStorePrefix ++ "{key:path}" }]

def captureScreenshot : Route := { method := "GET", path := "/api/capture/screenshot" }

def fastapiRoutes (site : Site) : List Route :=
  appRoutes ++ (if site.fileStore then storeRoutes else []) ++ (if site.servesLocalRoutes then [captureScreenshot] else []) ++
    ROUTES.filter fun route => !route.offLoop && (site.servesLocalRoutes || !route.localOnly)

/-- Every route that either backend may serve. -/
def allRoutes : List Route := appRoutes ++ storeRoutes ++ [captureScreenshot] ++ ROUTES.filter fun route => !route.offLoop

theorem fastapiRoutes_subset (site : Site) : fastapiRoutes site ⊆ allRoutes := by
  intro route hMem
  simp only [fastapiRoutes, allRoutes, List.mem_append, List.mem_filter] at hMem ⊢
  obtain ((hApp | hStore) | hLocal) | ⟨hTable, hServed⟩ := hMem
  · exact .inl (.inl (.inl hApp))
  · split at hStore
    · exact .inl (.inl (.inr hStore))
    · cases hStore
  · split at hLocal
    · exact .inl (.inr hLocal)
    · cases hLocal
  · exact .inr ⟨hTable, (Bool.and_eq_true_iff.mp hServed).1⟩

def Route.id (route : Route) : String × String := (route.method, route.path)

def comparable (a b : Text) : Bool := a.isPrefixOf b || b.isPrefixOf a

theorem uniform_bounded : ROUTES.all (fun route => route.offLoop || (segments route.path.toList).all fun segment =>
    (parameter segment).all (!isGreedy ·)) = true := by
  simp only [toList_eq_asciiChars]
  decide +kernel

theorem comparable_of_prefixes {a b path : Text} (ha : a <+: path) (hb : b <+: path) : comparable a b = true := by
  obtain h | h := List.prefix_or_prefix_of_prefix ha hb
  · exact Bool.or_eq_true_iff.mpr (.inl (List.isPrefixOf_iff_prefix.mpr h))
  · exact Bool.or_eq_true_iff.mpr (.inr (List.isPrefixOf_iff_prefix.mpr h))

end Bajutsu.Serve.Gate
