import Bajutsu.Assertions.EvaluateRequests
import Bajutsu.Lib.Raising

/-!
# Where matching raises

The loader compiles the `$matches` patterns of a `query` or `body` dictionary and no other pattern. Matching an exchange
then raises at a pattern it reaches, or at a `query` whose URL cannot be split.
-/

namespace Bajutsu.Assertions

open PyValue (Val)
open Raising

/-! ## Dictionaries that load -/

/-- The regular expressions of an operator map. -/
def operatorPatterns (ops : List Operator) : List String :=
  ops.filterMap fun | .matches pattern => some pattern | .exists _ => none

def QueryMatcher.patterns : QueryMatcher → List String
  | text _ => []
  | operators ops => operatorPatterns ops

namespace BodyMatcher

mutual
def patterns : BodyMatcher → List String
  | text _ => []
  | operators ops => operatorPatterns ops
  | object items => itemsPatterns items
  | array items => listPatterns items

def itemsPatterns : List (String × BodyMatcher) → List String
  | [] => []
  | (_, value) :: items => value.patterns ++ itemsPatterns items

def listPatterns : List BodyMatcher → List String
  | [] => []
  | item :: items => item.patterns ++ listPatterns items
end

end BodyMatcher

def EndpointMatch.patterns (m : EndpointMatch) : List String :=
  (m.query.getD []).flatMap (fun item => item.2.patterns) ++ BodyMatcher.itemsPatterns (m.body.getD [])

def AllCompile (rt : Runtime) (patterns : List String) : Prop :=
  ∀ pattern ∈ patterns, ∃ search, rt.compile pattern = some search

/-- What `check_dict_matcher` asks of the patterns. -/
def EndpointMatch.Loads (rt : Runtime) (m : EndpointMatch) : Prop := AllCompile rt m.patterns

section Matching

variable {rt : Runtime} {exchanges : List NetworkExchange} {ex : NetworkExchange}

theorem AllCompile.of_append {patterns patterns' : List String} (h : AllCompile rt (patterns ++ patterns')) :
    AllCompile rt patterns ∧ AllCompile rt patterns' :=
  List.forall_mem_append.mp h

theorem raises_compile {pattern : String} : Raises (compile rt pattern) ↔ rt.compile pattern = none := by
  rw [compile]
  cases rt.compile pattern with
  | none => exact iff_of_true (raises_error _) rfl
  | some search => exact iff_of_false (not_raises_ok _) nofun

theorem wantsPattern_mem {ops : List Operator} {pattern : String} (h : wantsPattern ops = some pattern) :
    pattern ∈ operatorPatterns ops := by
  obtain ⟨op, hMem, hOp⟩ := List.exists_of_findSome?_eq_some h
  exact List.mem_filterMap.mpr ⟨op, hMem, by cases op <;> exact hOp⟩

theorem operatorsMismatch_loaded {ops : List Operator} (h : AllCompile rt (operatorPatterns ops)) (present : Bool)
    (observed : List String) (place : String) : ¬Raises (operatorsMismatch rt ops present observed place) := by
  rw [operatorsMismatch]
  split
  · exact not_raises_ok _
  split
  · exact not_raises_ok _
  split
  · exact not_raises_ok _
  rename_i pattern hPattern
  obtain ⟨search, hSearch⟩ := h pattern (wantsPattern_mem hPattern)
  have hCompile : compile rt pattern = .ok search := by rw [compile, hSearch]
  rw [patternMismatch, anyM_compile hCompile]
  cases List.any _ search with
  | true => exact not_raises_ok _
  | false => exact not_raises_ok _

theorem queryMismatch_loaded {items : List (String × QueryMatcher)} {params : List (String × List String)}
    (h : AllCompile rt (items.flatMap fun item => item.2.patterns)) : ¬Raises (queryMismatch rt params items) := by
  induction items with
  | nil => exact not_raises_ok _
  | cons item items ih =>
    obtain ⟨key, want⟩ := item
    rw [List.flatMap_cons] at h
    obtain ⟨hHere, hRest⟩ := h.of_append
    cases want with
    | text want =>
      rw [queryMismatch.eq_def]
      dsimp only
      split
      · exact ih hRest
      · exact not_raises_ok _
    | operators ops =>
      rw [queryMismatch.eq_def]
      dsimp only
      rw [raises_bind]
      rintro (hOps | ⟨miss, -, hMiss⟩)
      · exact operatorsMismatch_loaded hHere _ _ _ hOps
      · cases miss with
        | none => exact ih hRest hMiss
        | some miss => exact not_raises_ok _ hMiss

mutual
theorem bodyMismatch_loaded (want : BodyMatcher) (h : AllCompile rt want.patterns) (value : Option Val)
    (place : String) : ¬Raises (bodyMismatch rt want value place) := by
  cases want with
  | text want => cases value with
    | _ =>
      rw [bodyMismatch]
      exact not_raises_ok _
  | operators ops =>
    rw [bodyMismatch]
    exact operatorsMismatch_loaded h _ _ _
  | object items =>
    cases value with
    | none => rw [bodyMismatch] <;> nofun
    | some value =>
      cases value with
      | dict fields =>
        rw [bodyMismatch]
        exact objectMismatch_loaded items h _ _
      | _ => rw [bodyMismatch] <;> nofun
  | array items =>
    cases value with
    | none => rw [bodyMismatch] <;> nofun
    | some value =>
      cases value with
      | list values =>
        rw [bodyMismatch]
        split
        · exact arrayMismatch_loaded items h _ _ _
        · exact not_raises_ok _
      | _ => rw [bodyMismatch] <;> nofun

theorem objectMismatch_loaded (items : List (String × BodyMatcher)) (h : AllCompile rt (BodyMatcher.itemsPatterns items))
    (fields : List (String × Val)) (place : String) : ¬Raises (objectMismatch rt items fields place) := by
  cases items with
  | nil =>
    rw [objectMismatch]
    exact not_raises_ok _
  | cons item items =>
    obtain ⟨key, sub⟩ := item
    obtain ⟨hHere, hRest⟩ := h.of_append
    rw [objectMismatch, raises_bind]
    rintro (hSub | ⟨miss, -, hMiss⟩)
    · exact bodyMismatch_loaded sub hHere _ _ hSub
    · cases miss with
      | none => exact objectMismatch_loaded items hRest _ _ hMiss
      | some miss => exact not_raises_ok _ hMiss

theorem arrayMismatch_loaded (items : List BodyMatcher) (h : AllCompile rt (BodyMatcher.listPatterns items))
    (values : List Val) (i : Nat) (place : String) : ¬Raises (arrayMismatch rt items values i place) := by
  cases items with
  | nil =>
    rw [arrayMismatch]
    · exact not_raises_ok _
    · nofun
  | cons sub items =>
    obtain ⟨hHere, hRest⟩ := h.of_append
    cases values with
    | nil =>
      rw [arrayMismatch]
      · exact not_raises_ok _
      · nofun
    | cons value values =>
      rw [arrayMismatch, raises_bind]
      rintro (hSub | ⟨miss, -, hMiss⟩)
      · exact bodyMismatch_loaded sub hHere _ _ hSub
      · cases miss with
        | none => exact arrayMismatch_loaded items hRest _ _ _ hMiss
        | some miss => exact not_raises_ok _ hMiss
end

/-! ## A matcher that loads -/

theorem raises_queryParams : Raises (queryParams rt ex) ↔ UrlSplit.urlsplit rt.validNetloc ex.url.toList = none := by
  rw [queryParams]
  cases UrlSplit.urlsplit rt.validNetloc ex.url.toList with
  | none => exact iff_of_true (raises_error _) rfl
  | some split => exact iff_of_false (not_raises_ok _) nofun

/-- The URL of an exchange cannot be split, and is to be. -/
def QueryUnread (rt : Runtime) (ex : NetworkExchange) (m : EndpointMatch) : Prop :=
  m.query.isSome = true ∧ UrlSplit.urlsplit rt.validNetloc ex.url.toList = none

theorem raises_dictMismatch {m : EndpointMatch} (h : m.Loads rt) :
    Raises (dictMismatch rt ex m.query m.body) ↔ QueryUnread rt ex m := by
  obtain ⟨hQuery, hBody⟩ := AllCompile.of_append h
  have hBodyPart : ¬Raises (bodyPart rt ex m.body) := by
    rw [bodyPart.eq_def]
    split
    · exact not_raises_ok _
    · rename_i body _ hEq _
      rw [hEq] at hBody
      exact bodyMismatch_loaded (.object body) hBody _ _
    · exact not_raises_ok _
  have hQueryPart : Raises (queryPart rt ex m.query) ↔ QueryUnread rt ex m := by
    rw [QueryUnread, ← raises_queryParams, queryPart.eq_def]
    cases hEq : m.query with
    | none => exact iff_of_false (not_raises_ok _) (by rintro ⟨⟨⟩, _⟩)
    | some query =>
      rw [hEq] at hQuery
      dsimp only
      rw [raises_bind]
      constructor
      · rintro (hParams | ⟨params, -, hMiss⟩)
        · exact ⟨rfl, hParams⟩
        · exact absurd hMiss (queryMismatch_loaded hQuery)
      · rintro ⟨-, hParams⟩
        exact .inl hParams
  rw [dictMismatch, raises_bind, hQueryPart]
  constructor
  · rintro (hUnread | ⟨miss, -, hRest⟩)
    · exact hUnread
    · cases miss with
      | none => exact absurd hRest hBodyPart
      | some miss => exact absurd hRest (not_raises_ok _)
  · exact .inl

theorem raises_searches {pattern : Option String} {text : String} :
    Raises (searches rt pattern text) ↔ ∃ bad, pattern = some bad ∧ rt.compile bad = none := by
  cases pattern with
  | none => exact iff_of_false (not_raises_ok _) nofun
  | some pattern =>
    rw [searches, raises_bind_ok (fun _ => not_raises_pure _), raises_compile]
    constructor
    · exact fun hBad => ⟨pattern, rfl, hBad⟩
    · rintro ⟨bad, hPattern, hBad⟩
      cases hPattern
      exact hBad

/-- The criteria in front of the pattern over the path. -/
def EndpointMatch.NamesUrl (rt : Runtime) (ex : NetworkExchange) (m : EndpointMatch) : Prop :=
  (m.method.all fun method => rt.upper ex.method = rt.upper method) = true ∧ m.url.all (ex.url = ·) = true

def EndpointMatch.NamesPath (rt : Runtime) (ex : NetworkExchange) (m : EndpointMatch) : Prop :=
  m.NamesUrl rt ex ∧ searches rt m.urlMatches ex.url = .ok true ∧ m.path.all (ex.path = ·) = true

def searchesBody (rt : Runtime) (ex : NetworkExchange) (req : RequestMatch) : Except Failure Bool :=
  match req.bodyMatches, ex.requestBody with
  | some _, none => .ok false
  | pattern, body => searches rt pattern (body.getD "")

/-- Matching comes to a pattern that does not compile, or to a query whose URL cannot be split. -/
inductive Unmatchable (rt : Runtime) (ex : NetworkExchange) (req : RequestMatch) : Prop
  | url {pattern : String} (hReached : req.NamesUrl rt ex) (hPattern : req.urlMatches = some pattern)
    (hBad : rt.compile pattern = none)
  | path {pattern : String} (hReached : req.NamesPath rt ex) (hPattern : req.pathMatches = some pattern)
    (hBad : rt.compile pattern = none)
  | body {pattern body : String} (hReached : req.NamesPath rt ex) (hPath : searches rt req.pathMatches ex.path = .ok true)
    (hStatus : req.status.all (ex.status = some ·) = true) (hPattern : req.bodyMatches = some pattern)
    (hBody : ex.requestBody = some body) (hBad : rt.compile pattern = none)
  | query (hReached : req.NamesPath rt ex) (hPath : searches rt req.pathMatches ex.path = .ok true)
    (hStatus : req.status.all (ex.status = some ·) = true) (hBody : searchesBody rt ex req = .ok true)
    (hUnread : QueryUnread rt ex req.toEndpointMatch)

theorem raises_searchesBody {req : RequestMatch} : Raises (searchesBody rt ex req) ↔
    ∃ pattern body, req.bodyMatches = some pattern ∧ ex.requestBody = some body ∧ rt.compile pattern = none := by
  rw [searchesBody]
  cases req.bodyMatches with
  | none => exact iff_of_false (not_raises_ok _) nofun
  | some pattern =>
    cases ex.requestBody with
    | none => exact iff_of_false (not_raises_ok _) nofun
    | some body =>
      dsimp only
      rw [raises_searches]
      constructor
      · rintro ⟨bad, hPattern, hBad⟩
        exact ⟨bad, body, hPattern, rfl, hBad⟩
      · rintro ⟨bad, _, hPattern, -, hBad⟩
        exact ⟨bad, hPattern, hBad⟩

theorem raises_matchRequest {req : RequestMatch} (h : req.toEndpointMatch.Loads rt) :
    Raises (matchRequest rt ex req) ↔ Unmatchable rt ex req := by
  have hDict : Raises (if req.query.isNone && req.body.isNone then .ok true
      else do return (← dictMismatch rt ex req.query req.body).isNone : Except Failure Bool) ↔
        QueryUnread rt ex req.toEndpointMatch := by
    split
    · rename_i hNone
      refine iff_of_false (not_raises_ok _) ?_
      rintro ⟨hSome, -⟩
      simp only [Bool.and_eq_true, Option.isNone_iff_eq_none] at hNone
      simp [hNone.1] at hSome
    · rw [raises_bind_ok (fun _ => not_raises_pure _)]
      exact raises_dictMismatch h
  have hPure (b : Bool) : ¬Raises (pure b : Except Failure Bool) := not_raises_pure b
  have hMatch : matchRequest rt ex req =
      (pure (req.method.all fun method => rt.upper ex.method = rt.upper method) <&&> pure (req.url.all (ex.url = ·)) <&&>
        searches rt req.urlMatches ex.url <&&> pure (req.path.all (ex.path = ·)) <&&>
        searches rt req.pathMatches ex.path <&&> pure (req.status.all (ex.status = some ·)) <&&>
        searchesBody rt ex req <&&>
        if req.query.isNone && req.body.isNone then .ok true
        else do return (← dictMismatch rt ex req.query req.body).isNone) := rfl
  rw [hMatch]
  constructor
  · intro hRaises
    obtain hRaises | ⟨hMethod, hRaises⟩ := raises_and.mp hRaises
    · exact absurd hRaises (hPure _)
    obtain hRaises | ⟨hUrl, hRaises⟩ := raises_and.mp hRaises
    · exact absurd hRaises (hPure _)
    have hNamesUrl : req.NamesUrl rt ex := ⟨Except.ok.inj hMethod, Except.ok.inj hUrl⟩
    obtain hRaises | ⟨hUrlFound, hRaises⟩ := raises_and.mp hRaises
    · obtain ⟨pattern, hPattern, hBad⟩ := raises_searches.mp hRaises
      exact .url hNamesUrl hPattern hBad
    obtain hRaises | ⟨hPath, hRaises⟩ := raises_and.mp hRaises
    · exact absurd hRaises (hPure _)
    have hNamesPath : req.NamesPath rt ex := ⟨hNamesUrl, hUrlFound, Except.ok.inj hPath⟩
    obtain hRaises | ⟨hPathFound, hRaises⟩ := raises_and.mp hRaises
    · obtain ⟨pattern, hPattern, hBad⟩ := raises_searches.mp hRaises
      exact .path hNamesPath hPattern hBad
    obtain hRaises | ⟨hStatus, hRaises⟩ := raises_and.mp hRaises
    · exact absurd hRaises (hPure _)
    obtain hRaises | ⟨hBody, hRaises⟩ := raises_and.mp hRaises
    · obtain ⟨pattern, body, hPattern, hText, hBad⟩ := raises_searchesBody.mp hRaises
      exact .body hNamesPath hPathFound (Except.ok.inj hStatus) hPattern hText hBad
    · exact .query hNamesPath hPathFound (Except.ok.inj hStatus) hBody (hDict.mp hRaises)
  · -- The checks in front of the one that raises have all passed.
    have hPass {b : Bool} {x : Except Failure Bool} (hb : b = true) (hx : Raises x) :
        Raises ((pure b : Except Failure Bool) <&&> x) := raises_and.mpr (.inr ⟨congrArg Except.ok hb, hx⟩)
    rintro (⟨⟨hMethod, hUrl⟩, hPattern, hBad⟩ | ⟨⟨⟨hMethod, hUrl⟩, hUrlFound, hPath⟩, hPattern, hBad⟩ |
      ⟨⟨⟨hMethod, hUrl⟩, hUrlFound, hPath⟩, hPathFound, hStatus, hPattern, hText, hBad⟩ |
      ⟨⟨⟨hMethod, hUrl⟩, hUrlFound, hPath⟩, hPathFound, hStatus, hBody, hUnread⟩)
    · refine hPass hMethod (hPass hUrl (raises_and.mpr (.inl ?_)))
      exact raises_searches.mpr ⟨_, hPattern, hBad⟩
    · refine hPass hMethod (hPass hUrl (raises_and.mpr (.inr ⟨hUrlFound, hPass hPath (raises_and.mpr (.inl ?_))⟩)))
      exact raises_searches.mpr ⟨_, hPattern, hBad⟩
    · refine hPass hMethod (hPass hUrl (raises_and.mpr (.inr ⟨hUrlFound, hPass hPath (raises_and.mpr (.inr
        ⟨hPathFound, hPass hStatus (raises_and.mpr (.inl ?_))⟩))⟩)))
      exact raises_searchesBody.mpr ⟨_, _, hPattern, hText, hBad⟩
    · refine hPass hMethod (hPass hUrl (raises_and.mpr (.inr ⟨hUrlFound, hPass hPath (raises_and.mpr (.inr
        ⟨hPathFound, hPass hStatus (raises_and.mpr (.inr ⟨hBody, ?_⟩))⟩))⟩)))
      exact hDict.mpr hUnread

/-! ## Requests -/

theorem endpoint_loads (m : EndpointMatch) : (endpoint m).toEndpointMatch.Loads rt := fun _ hMem => nomatch hMem

/-- The hint of a failed match comes to an endpoint that raises, or its one candidate has a query that is not read. -/
def HintUnread (rt : Runtime) (exchanges : List NetworkExchange) (m : EndpointMatch) : Prop :=
  (m.query.isSome = true ∨ m.body.isSome = true) ∧
    ((∃ ex ∈ exchanges, Unmatchable rt ex (endpoint m)) ∨
      ∃ ex, (exchanges.filterM fun ex => matchRequest rt ex (endpoint m)) = .ok [ex] ∧ QueryUnread rt ex m)

theorem raises_endpoint {m : EndpointMatch} : Raises (exchanges.filterM fun ex => matchRequest rt ex (endpoint m)) ↔
    ∃ ex ∈ exchanges, Unmatchable rt ex (endpoint m) := by
  rw [raises_filterM]
  simp only [raises_matchRequest (endpoint_loads m)]

theorem raises_dictionaryHint {m : EndpointMatch} (h : m.Loads rt) :
    Raises (dictionaryHint rt exchanges m) ↔ HintUnread rt exchanges m := by
  rw [dictionaryHint, HintUnread]
  cases hSet : m.query.isNone && m.body.isNone with
  | true =>
    simp only [Bool.and_eq_true, Option.isNone_iff_eq_none] at hSet
    refine iff_of_false (not_raises_ok _) ?_
    simp [hSet.1, hSet.2]
  | false =>
    have hSome : m.query.isSome = true ∨ m.body.isSome = true := by
      cases hQuery : m.query with
      | some query => exact .inl rfl
      | none => simpa [hQuery, Option.isSome_iff_ne_none] using hSet
    simp only [Bool.false_eq_true, if_false, hSome, true_and]
    rw [raises_bind, raises_endpoint]
    constructor
    · rintro (hEndpoint | ⟨candidates, hCandidates, hRest⟩)
      · exact .inl hEndpoint
      · match candidates with
        | [candidate] => exact .inr ⟨candidate, hCandidates, (raises_dictMismatch h).mp hRest⟩
        | [] => exact absurd hRest (not_raises_pure _)
        | _ :: _ :: _ => exact absurd hRest (not_raises_pure _)
    · rintro (hEndpoint | ⟨candidate, hCandidates, hUnread⟩)
      · exact .inl hEndpoint
      · exact .inr ⟨[candidate], hCandidates, (raises_dictMismatch h).mpr hUnread⟩

/-- A request raises where matching it does, or where nothing matches and the hint does. -/
def RequestAborts (rt : Runtime) (exchanges : List NetworkExchange) (req : RequestMatch) : Prop :=
  (∃ ex ∈ exchanges, Unmatchable rt ex req) ∨
    req.count = none ∧ (∀ ex ∈ exchanges, matchRequest rt ex req = .ok false) ∧
      HintUnread rt exchanges req.toEndpointMatch

theorem filterM_accepts {req : RequestMatch} (h : ∀ ex ∈ exchanges, ¬Raises (matchRequest rt ex req)) :
    (exchanges.filterM fun ex => matchRequest rt ex req) = .ok (exchanges.filter (accepts rt req)) := by
  apply PyValue.filterM_eq_ok
  intro ex hEx
  obtain ⟨accepted, hAccepted⟩ := not_raises_iff.mp (h ex hEx)
  rw [hAccepted, accepts, hAccepted]

theorem noneAccepted_iff {req : RequestMatch} (h : ∀ ex ∈ exchanges, ¬Raises (matchRequest rt ex req)) :
    exchanges.filter (accepts rt req) = [] ↔ ∀ ex ∈ exchanges, matchRequest rt ex req = .ok false := by
  rw [List.filter_eq_nil_iff]
  apply forall₂_congr
  intro ex hEx
  obtain ⟨accepted, hAccepted⟩ := not_raises_iff.mp (h ex hEx)
  rw [accepts, hAccepted]
  simp

theorem raises_evalRequest {req : RequestMatch} (h : req.toEndpointMatch.Loads rt) :
    Raises (evalRequest rt exchanges req) ↔ RequestAborts rt exchanges req := by
  have hMatch (ex : NetworkExchange) := @raises_matchRequest rt ex req h
  rw [evalRequest, countMatching, RequestAborts]
  by_cases hSome : ∃ ex ∈ exchanges, Unmatchable rt ex req
  · refine iff_of_true ?_ (.inl hSome)
    refine raises_bind.mpr (.inl (raises_bind.mpr (.inl (raises_filterM.mpr ?_))))
    obtain ⟨ex, hEx, hBad⟩ := hSome
    exact ⟨ex, hEx, (hMatch ex).mpr hBad⟩
  · have hQuiet : ∀ ex ∈ exchanges, ¬Raises (matchRequest rt ex req) :=
      fun ex hEx hRaises => hSome ⟨ex, hEx, (hMatch ex).mp hRaises⟩
    rw [filterM_accepts hQuiet, ← noneAccepted_iff hQuiet, ← raises_dictionaryHint h, or_iff_right hSome]
    cases req.count with
    | some count =>
      refine iff_of_false ?_ (by rintro ⟨⟨⟩, _⟩)
      change ¬Raises (if _ then _ else _)
      split
      · exact not_raises_ok _
      · exact not_raises_ok _
    | none =>
      rw [eq_self, true_and, ← List.length_eq_zero_iff]
      change Raises (if _ then _ else _) ↔ _
      split
      · rename_i hOne
        refine iff_of_false (not_raises_ok _) ?_
        omega
      · rename_i hNone
        have hZero : (exchanges.filter (accepts rt req)).length = 0 := by omega
        rw [raises_bind_ok (fun _ => not_raises_pure _)]
        exact ⟨fun hHint => ⟨hZero, hHint⟩, And.right⟩

/-! ## Sequences -/

/-- The scan of a sequence comes to an exchange at which the matcher it is at raises. -/
inductive SequenceStops (rt : Runtime) : List NetworkExchange → List RequestMatch → Prop
  | here {ex : NetworkExchange} {rest : List NetworkExchange} {req : RequestMatch} {seq : List RequestMatch}
    (hBad : Unmatchable rt ex req) : SequenceStops rt (ex :: rest) (req :: seq)
  | passed {ex : NetworkExchange} {rest : List NetworkExchange} {req : RequestMatch} {seq : List RequestMatch}
    (hPassed : matchRequest rt ex req = .ok false) (hRest : SequenceStops rt rest (req :: seq)) :
    SequenceStops rt (ex :: rest) (req :: seq)
  | taken {ex : NetworkExchange} {rest : List NetworkExchange} {req : RequestMatch} {seq : List RequestMatch}
    (hTaken : matchRequest rt ex req = .ok true) (hRest : SequenceStops rt rest seq) :
    SequenceStops rt (ex :: rest) (req :: seq)

theorem raises_scan {seq : List RequestMatch} (h : ∀ req ∈ seq, req.toEndpointMatch.Loads rt) :
    Raises (Placement.scan (judge rt) exchanges seq) ↔ SequenceStops rt exchanges seq := by
  induction exchanges generalizing seq with
  | nil => cases seq with
    | _ => exact iff_of_false (not_raises_ok _) nofun
  | cons ex rest ih =>
    cases seq with
    | nil => exact iff_of_false (not_raises_ok _) nofun
    | cons req seq =>
      obtain ⟨hReq, hSeq⟩ := List.forall_mem_cons.mp h
      have hMatch := @raises_matchRequest rt ex req hReq
      rw [Placement.scan, raises_bind, judge, hMatch]
      constructor
      · rintro (hBad | ⟨accepted, hAccepted, hRest⟩)
        · exact .here hBad
        · cases accepted with
          | true => exact .taken hAccepted ((ih hSeq).mp hRest)
          | false => exact .passed hAccepted ((ih h).mp hRest)
      · intro hStops
        cases hStops with
        | here hBad => exact .inl hBad
        | passed hPassed hRest => exact .inr ⟨false, hPassed, (ih h).mpr hRest⟩
        | taken hTaken hRest => exact .inr ⟨true, hTaken, (ih hSeq).mpr hRest⟩

theorem raises_sequenceFrom (all seq : List RequestMatch) (pos : Nat) {i : Nat} (hBound : i ≤ exchanges.length) :
    Raises (sequenceFrom rt exchanges all pos i seq) ↔
      Raises (Placement.scan (judge rt) (exchanges.drop i) seq) := by
  induction seq generalizing pos i with
  | nil =>
    have hScan : Placement.scan (judge rt) (exchanges.drop i) [] = .ok true := by cases exchanges.drop i <;> rfl
    rw [hScan]
    exact iff_of_false (not_raises_ok _) (not_raises_ok _)
  | cons req seq ih =>
    rw [sequenceFrom, scan_advance req seq (exchanges.drop i) i, List.length_drop, Nat.add_sub_cancel' hBound]
    cases hAdvance : advance rt req (exchanges.drop i) i with
    | error e => exact iff_of_true (raises_error e) (raises_error e)
    | ok j =>
      have hGe := advance_ge hAdvance
      change Raises (if exchanges.length ≤ j then _ else _) ↔ Raises (if exchanges.length ≤ j then _ else _)
      split
      · exact iff_of_false (not_raises_pure _) (not_raises_ok _)
      · have hDrop : i + (j + 1 - i) = j + 1 := by omega
        rw [List.drop_drop, hDrop]
        exact ih (pos + 1) (by omega)

theorem raises_evalRequestSequence {seq : List RequestMatch} (h : ∀ req ∈ seq, req.toEndpointMatch.Loads rt) :
    Raises (evalRequestSequence rt exchanges seq) ↔ SequenceStops rt exchanges seq := by
  rw [evalRequestSequence, raises_sequenceFrom seq seq 0 (Nat.zero_le _), List.drop_zero, raises_scan h]

end Matching

end Bajutsu.Assertions
