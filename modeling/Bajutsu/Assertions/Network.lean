import Bajutsu.Lib.PercentDecoding
import Bajutsu.Lib.PyValue
import Bajutsu.Lib.UrlSplit

/-!
# Matching a request

A matcher's criteria are checked against one exchange, the cheap ones first. A dictionary of `query` or `body` values
reports the first key that fails. A criterion whose pattern is no regular expression raises where it is reached, and so
does a `query` at an exchange whose URL cannot be split.
-/

namespace Bajutsu.Assertions

open PyValue (Val)

inductive Failure where
  /-- `re.error`. -/
  | badPattern (pattern : String)
  /-- The `ValueError` of `urlsplit`. -/
  | badUrl (url : String)
  /-- What a file or a body raises that another kind of assertion reads. -/
  | unreadable (name : String)
  deriving DecidableEq

structure Runtime where
  upper : String → String
  /-- `re.compile`, and the `search` of what it gives. -/
  compile : String → Option (String → Bool)
  /-- The check of `urlsplit` that raises. -/
  validNetloc : List Char → Bool
  /-- `json.loads`, none where it raises. -/
  loads : String → Option Val
  /-- Compact `json.dumps`. -/
  dumps : Val → String
  /-- `str` of a number. -/
  str : Val → String

structure NetworkExchange where
  method : String
  url : String
  path : String
  status : Option Int
  requestBody : Option String
  responseBody : Option String := none
  deriving DecidableEq

inductive Operator where
  | «matches» (pattern : String)
  | «exists» (present : Bool)

/-- A value of a `query` dictionary. -/
inductive QueryMatcher where
  | text (want : String)
  | operators (ops : List Operator)

/-- A value of a `body` dictionary. -/
inductive BodyMatcher where
  | text (want : String)
  | operators (ops : List Operator)
  | object (items : List (String × BodyMatcher))
  | array (items : List BodyMatcher)

structure EndpointMatch where
  method : Option String
  url : Option String
  urlMatches : Option String
  path : Option String
  pathMatches : Option String
  query : Option (List (String × QueryMatcher))
  body : Option (List (String × BodyMatcher))

structure RequestMatch extends EndpointMatch where
  status : Option Int
  bodyMatches : Option String
  count : Option Int

namespace Operator

def toVal : Operator → String × Val
  | «matches» pattern => ("$matches", .str pattern)
  | «exists» present => ("$exists", .bool present)

end Operator

def QueryMatcher.toVal : QueryMatcher → Val
  | text want => .str want
  | operators ops => .dict (ops.map Operator.toVal)

namespace BodyMatcher

mutual
def toVal : BodyMatcher → Val
  | text want => .str want
  | operators ops => .dict (ops.map Operator.toVal)
  | object items => .dict (itemsToVal items)
  | array items => .list (listToVal items)

def itemsToVal : List (String × BodyMatcher) → List (String × Val)
  | [] => []
  | (key, value) :: items => (key, value.toVal) :: itemsToVal items

def listToVal : List BodyMatcher → List Val
  | [] => []
  | item :: items => item.toVal :: listToVal items
end

end BodyMatcher

/-- A doubled `$` escapes one. -/
def unescapeKey (key : String) : String :=
  match key.toList with
  | '$' :: '$' :: rest => String.ofList ('$' :: rest)
  | _ => key

section Match

variable (rt : Runtime)

def compile (pattern : String) : Except Failure (String → Bool) :=
  match rt.compile pattern with
  | some search => .ok search
  | none => .error (.badPattern pattern)

/-! ## What an exchange holds -/

def parseField (field : List Char) : String × String :=
  let (name, value) := UrlSplit.partition '=' field
  let read (text : List Char) := String.ofList (PercentDecoding.unquote (text.map fun c => if c = '+' then ' ' else c))
  (read name, read value)

/-- `parse_qs` with `keep_blank_values`. -/
def parseQs (query : List Char) : List (String × List String) :=
  let fields := ((query.splitOn '&').filter (· ≠ [])).map parseField
  (PyValue.groupBy Prod.fst fields).map fun group => (group.1, group.2.map Prod.snd)

def queryParams (ex : NetworkExchange) : Except Failure (List (String × List String)) :=
  match UrlSplit.urlsplit rt.validNetloc ex.url.toList with
  | some split => .ok (parseQs split.query)
  | none => .error (.badUrl ex.url)

def requestJsonObject (ex : NetworkExchange) : Option (List (String × Val)) :=
  match ex.requestBody.bind rt.loads with
  | some (.dict items) => some items
  | _ => none

/-! ## Dictionaries -/

def jsonText : Val → String
  | .bool b => if b then "true" else "false"
  | .null => "null"
  | .str s => s
  | .dict items => rt.dumps (.dict items)
  | .list items => rt.dumps (.list items)
  | value => rt.str value

def shownChars : Nat := 80

def shown (text : String) : String :=
  let quoted := rt.dumps (.str text)
  if quoted.length ≤ shownChars then quoted else String.ofList (quoted.toList.take (shownChars - 1)) ++ "…"

def got : List String → String
  | [] => "nothing"
  | [one] => shown rt one
  | observed => "[" ++ ", ".intercalate (observed.map (shown rt)) ++ "]"

def wantsExists (ops : List Operator) : Option Bool :=
  ops.findSome? fun | .«exists» present => some present | _ => none

def wantsPattern (ops : List Operator) : Option String :=
  ops.findSome? fun | .«matches» pattern => some pattern | _ => none

def patternMismatch (pattern : String) (texts : List String) (place : String) : Except Failure (Option String) := do
  if ← texts.anyM fun text => do return (← compile rt pattern) text then return none
  return some (place ++ ": expected to match /" ++ pattern ++ "/, got " ++ got rt texts)

def operatorsMismatch (ops : List Operator) (present : Bool) (observed : List String) (place : String) :
    Except Failure (Option String) :=
  if wantsExists ops = some true && !present then .ok (some (place ++ ": expected present, got nothing"))
  else if wantsExists ops = some false && present then
    .ok (some (place ++ ": expected absent, got " ++ got rt observed))
  else
    match wantsPattern ops with
    | none => .ok none
    | some pattern => patternMismatch rt pattern (if present then observed else []) place

mutual
/-- The value is none where the key is not there. -/
def bodyMismatch (want : BodyMatcher) (value : Option Val) (place : String) : Except Failure (Option String) :=
  match want, value with
  | .operators ops, value =>
    operatorsMismatch rt ops value.isSome [jsonText rt (value.getD .null)] place
  | .text want, none => .ok (some (place ++ ": expected " ++ shown rt want ++ ", got nothing"))
  | _, none => .ok (some (place ++ ": expected a value, got nothing"))
  | .text want, some value =>
    .ok (if jsonText rt value = want then none
      else some (place ++ ": expected " ++ shown rt want ++ ", got " ++ shown rt (jsonText rt value)))
  | .object items, some (.dict fields) => objectMismatch items fields place
  | .object _, some value => .ok (some (place ++ ": expected an object, got " ++ shown rt (jsonText rt value)))
  | .array items, some value =>
    match value with
    | .list values =>
      if values.length = items.length then arrayMismatch items values 0 place
      else .ok (some (place ++ ": expected an array of " ++ toString items.length ++ " elements, got " ++
        shown rt (jsonText rt value)))
    | value => .ok (some (place ++ ": expected an array of " ++ toString items.length ++ " elements, got " ++
        shown rt (jsonText rt value)))

def objectMismatch (items : List (String × BodyMatcher)) (fields : List (String × Val)) (place : String) :
    Except Failure (Option String) :=
  match items with
  | [] => .ok none
  | (key, sub) :: items => do
    match ← bodyMismatch sub (PyValue.get fields (unescapeKey key)) (place ++ "." ++ unescapeKey key) with
    | some miss => return some miss
    | none => objectMismatch items fields place

def arrayMismatch (items : List BodyMatcher) (values : List Val) (i : Nat) (place : String) :
    Except Failure (Option String) :=
  match items, values with
  | sub :: items, value :: values => do
    match ← bodyMismatch sub (some value) (place ++ "[" ++ toString i ++ "]") with
    | some miss => return some miss
    | none => arrayMismatch items values (i + 1) place
  | _, _ => .ok none
end

def queryMismatch (params : List (String × List String)) :
    List (String × QueryMatcher) → Except Failure (Option String)
  | [] => .ok none
  | (key, want) :: items => do
    let observed := (PyValue.get params (unescapeKey key)).getD []
    let place := "query." ++ unescapeKey key
    match want with
    | .text want =>
      if want ∈ observed then queryMismatch params items
      else return some (place ++ ": expected " ++ shown rt want ++ ", got " ++ got rt observed)
    | .operators ops =>
      match ← operatorsMismatch rt ops (observed ≠ []) observed place with
      | some miss => return some miss
      | none => queryMismatch params items

def queryPart (ex : NetworkExchange) (query : Option (List (String × QueryMatcher))) :
    Except Failure (Option String) :=
  match query with
  | none => .ok none
  | some query => do queryMismatch rt (← queryParams rt ex) query

def bodyPart (ex : NetworkExchange) (body : Option (List (String × BodyMatcher))) : Except Failure (Option String) :=
  match body, requestJsonObject rt ex with
  | none, _ => .ok none
  | some body, some parsed => bodyMismatch rt (.object body) (some (.dict parsed)) "body"
  | some _, none =>
    .ok (some (if ex.requestBody = none then "body: request has no body"
      else "body: request body is not a JSON object"))

def dictMismatch (ex : NetworkExchange) (query : Option (List (String × QueryMatcher)))
    (body : Option (List (String × BodyMatcher))) : Except Failure (Option String) := do
  match ← queryPart rt ex query with
  | some miss => return some miss
  | none => bodyPart rt ex body

/-! ## Requests -/

/-- Whether a pattern, if there is one, occurs in a text. -/
def searches (pattern : Option String) (text : String) : Except Failure Bool :=
  match pattern with
  | none => .ok true
  | some pattern => do return (← compile rt pattern) text

def matchRequest (ex : NetworkExchange) (req : RequestMatch) : Except Failure Bool :=
  pure (req.method.all fun method => rt.upper ex.method = rt.upper method) <&&>
  pure (req.url.all (ex.url = ·)) <&&>
  searches rt req.urlMatches ex.url <&&>
  pure (req.path.all (ex.path = ·)) <&&>
  searches rt req.pathMatches ex.path <&&>
  pure (req.status.all (ex.status = some ·)) <&&>
  (match req.bodyMatches, ex.requestBody with
    | some _, none => .ok false
    | pattern, body => searches rt pattern (body.getD "")) <&&>
  (if req.query.isNone && req.body.isNone then .ok true
    else do return (← dictMismatch rt ex req.query req.body).isNone)

def endpoint (m : EndpointMatch) : RequestMatch where
  method := m.method
  url := m.url
  urlMatches := m.urlMatches
  path := m.path
  pathMatches := m.pathMatches
  query := none
  body := none
  status := none
  bodyMatches := none
  count := none

def dictionaryHint (exchanges : List NetworkExchange) (m : EndpointMatch) : Except Failure (Option String) :=
  if m.query.isNone && m.body.isNone then .ok none
  else do
    match ← exchanges.filterM fun ex => matchRequest rt ex (endpoint m) with
    | [candidate] => dictMismatch rt candidate m.query m.body
    | _ => return none

def countMatching (exchanges : List NetworkExchange) (req : RequestMatch) : Except Failure Nat := do
  return (← exchanges.filterM fun ex => matchRequest rt ex req).length

def dictLabel (name : String) (matcher : Val) : String := name ++ "=" ++ rt.dumps matcher

def requestLabel (req : RequestMatch) (withCount : Bool) : String :=
  " ".intercalate <| List.flatten
    [req.method.toList.map rt.upper,
     req.url.toList,
     req.urlMatches.toList.map ("url~" ++ ·),
     req.path.toList,
     req.pathMatches.toList.map ("~" ++ ·),
     req.query.toList.map fun query => dictLabel rt "query" (.dict (query.map fun item => (item.1, item.2.toVal))),
     req.body.toList.map fun body => dictLabel rt "body" (.dict (BodyMatcher.itemsToVal body)),
     req.status.toList.map fun status => "status=" ++ toString status,
     req.bodyMatches.toList.map ("body~" ++ ·),
     if withCount then req.count.toList.map fun count => "count=" ++ toString count else []]

end Match

/-! ## What raises

A matcher that accepts one exchange has no bad pattern, so that it raises only at a URL that cannot be split. -/

section Raises

variable {rt : Runtime}

theorem anyM_compile {pattern : String} {search : String → Bool} (h : compile rt pattern = .ok search)
    (texts : List String) :
    texts.anyM (fun text => do return (← compile rt pattern) text) = .ok (texts.any search) := by
  induction texts with
  | nil => rfl
  | cons text texts ih =>
    rw [List.anyM_cons, h, List.any_cons]
    rw [h] at ih
    cases hText : search text with
    | true => simp [hText, pure, Except.pure, bind, Except.bind]
    | false => simpa [hText, pure, Except.pure, bind, Except.bind] using ih

theorem patternMismatch_ok {pattern : String} {texts : List String} {place : String}
    (h : patternMismatch rt pattern texts place = .ok none) (texts' : List String) (place' : String) :
    ∃ miss, patternMismatch rt pattern texts' place' = .ok miss := by
  obtain ⟨search, hSearch⟩ : ∃ search, compile rt pattern = .ok search := by
    cases texts with
    | nil => cases h
    | cons text texts =>
      cases hCompile : compile rt pattern with
      | ok search => exact ⟨search, rfl⟩
      | error e =>
        rw [patternMismatch, List.anyM_cons, hCompile] at h
        cases h
  rw [patternMismatch, anyM_compile hSearch]
  cases texts'.any search <;> exact ⟨_, rfl⟩

theorem operatorsMismatch_ok {ops : List Operator} {present : Bool} {observed : List String} {place : String}
    (h : operatorsMismatch rt ops present observed place = .ok none) (present' : Bool) (observed' : List String)
    (place' : String) : ∃ miss, operatorsMismatch rt ops present' observed' place' = .ok miss := by
  rw [operatorsMismatch] at h ⊢
  cases hPattern : wantsPattern ops with
  | none => split_ifs <;> exact ⟨_, rfl⟩
  | some pattern =>
    simp only [hPattern] at h ⊢
    have hGood : patternMismatch rt pattern (if present then observed else []) place = .ok none := by
      split at h
      · cases h
      · split at h
        · cases h
        · exact h
    split
    · exact ⟨_, rfl⟩
    · split
      · exact ⟨_, rfl⟩
      · exact patternMismatch_ok hGood _ _

mutual
theorem bodyMismatch_ok (want : BodyMatcher) {value : Option Val} {place : String}
    (h : bodyMismatch rt want value place = .ok none) (value' : Option Val) (place' : String) :
    ∃ miss, bodyMismatch rt want value' place' = .ok miss := by
  cases want with
  | operators ops =>
    rw [bodyMismatch] at h ⊢
    exact operatorsMismatch_ok h _ _ _
  | text want => cases value' <;> exact ⟨_, by rw [bodyMismatch]⟩
  | object items =>
    have hAll : ∀ fields place', ∃ miss, objectMismatch rt items fields place' = .ok miss := by
      cases value with
      | none => cases h
      | some value =>
        cases value with
        | dict fields =>
          rw [bodyMismatch] at h
          exact objectMismatch_ok items h
        | _ => cases h
    cases value' with
    | none => exact ⟨_, by rw [bodyMismatch] <;> nofun⟩
    | some value' =>
      cases value' with
      | dict fields =>
        rw [bodyMismatch]
        exact hAll fields place'
      | _ => exact ⟨_, by rw [bodyMismatch]; nofun⟩
  | array items =>
    have hAll : ∀ values i place', ∃ miss, arrayMismatch rt items values i place' = .ok miss := by
      cases value with
      | none => cases h
      | some value =>
        cases value with
        | list values =>
          rw [bodyMismatch] at h
          split_ifs at h with hLength
          · exact arrayMismatch_ok items hLength.ge h
          · cases h
        | _ => cases h
    cases value' with
    | none => exact ⟨_, by rw [bodyMismatch] <;> nofun⟩
    | some value' =>
      cases value' with
      | list values =>
        rw [bodyMismatch]
        split_ifs
        · exact hAll values 0 place'
        · exact ⟨_, rfl⟩
      | _ => exact ⟨_, by rw [bodyMismatch]; nofun⟩

theorem objectMismatch_ok (items : List (String × BodyMatcher)) {fields : List (String × Val)} {place : String}
    (h : objectMismatch rt items fields place = .ok none) (fields' : List (String × Val)) (place' : String) :
    ∃ miss, objectMismatch rt items fields' place' = .ok miss := by
  cases items with
  | nil => exact ⟨none, by rw [objectMismatch]⟩
  | cons item items =>
    obtain ⟨key, sub⟩ := item
    rw [objectMismatch] at h ⊢
    cases hSub : bodyMismatch rt sub (PyValue.get fields (unescapeKey key)) (place ++ "." ++ unescapeKey key) with
    | error e =>
      rw [hSub] at h
      cases h
    | ok miss =>
      rw [hSub] at h
      cases miss with
      | some miss => cases h
      | none =>
        obtain ⟨miss', hMiss'⟩ := bodyMismatch_ok sub hSub (PyValue.get fields' (unescapeKey key))
          (place' ++ "." ++ unescapeKey key)
        rw [hMiss']
        cases miss' with
        | some miss' => exact ⟨_, rfl⟩
        | none => exact objectMismatch_ok items h fields' place'

theorem arrayMismatch_ok (items : List BodyMatcher) {values : List Val} {i : Nat} {place : String}
    (hLength : items.length ≤ values.length) (h : arrayMismatch rt items values i place = .ok none)
    (values' : List Val) (i' : Nat) (place' : String) :
    ∃ miss, arrayMismatch rt items values' i' place' = .ok miss := by
  cases items with
  | nil => exact ⟨none, by rw [arrayMismatch]; nofun⟩
  | cons sub items =>
    cases values with
    | nil => exact absurd hLength (Nat.not_succ_le_zero _)
    | cons value values =>
      cases values' with
      | nil => exact ⟨none, by rw [arrayMismatch]; nofun⟩
      | cons value' values' =>
        rw [arrayMismatch] at h ⊢
        cases hSub : bodyMismatch rt sub (some value) (place ++ "[" ++ toString i ++ "]") with
        | error e =>
          rw [hSub] at h
          cases h
        | ok miss =>
          rw [hSub] at h
          cases miss with
          | some miss => cases h
          | none =>
            obtain ⟨miss', hMiss'⟩ := bodyMismatch_ok sub hSub (some value') (place' ++ "[" ++ toString i' ++ "]")
            rw [hMiss']
            cases miss' with
            | some miss' => exact ⟨_, rfl⟩
            | none => exact arrayMismatch_ok items (Nat.le_of_succ_le_succ hLength) h values' (i' + 1) place'
end

theorem queryMismatch_ok {params : List (String × List String)} {items : List (String × QueryMatcher)}
    (h : queryMismatch rt params items = .ok none) (params' : List (String × List String)) :
    ∃ miss, queryMismatch rt params' items = .ok miss := by
  induction items with
  | nil => exact ⟨none, rfl⟩
  | cons item items ih =>
    obtain ⟨key, want⟩ := item
    cases want with
    | text want =>
      rw [queryMismatch.eq_def] at h ⊢
      dsimp only at h ⊢
      split at h
      · split
        · exact ih h
        · exact ⟨_, rfl⟩
      · cases h
    | operators ops =>
      rw [queryMismatch.eq_def] at h ⊢
      dsimp only at h ⊢
      generalize (PyValue.get params (unescapeKey key)).getD [] = observed at h
      cases hOps : operatorsMismatch rt ops (observed ≠ []) observed ("query." ++ unescapeKey key) with
      | error e =>
        rw [hOps] at h
        cases h
      | ok miss =>
        rw [hOps] at h
        cases miss with
        | some miss => cases h
        | none =>
          obtain ⟨miss', hMiss'⟩ := operatorsMismatch_ok hOps
            ((PyValue.get params' (unescapeKey key)).getD [] ≠ []) ((PyValue.get params' (unescapeKey key)).getD [])
            ("query." ++ unescapeKey key)
          rw [hMiss']
          cases miss' with
          | some miss' => exact ⟨_, rfl⟩
          | none => exact ih h

theorem bodyPart_ok {ex : NetworkExchange} {body : Option (List (String × BodyMatcher))}
    (h : bodyPart rt ex body = .ok none) (ex' : NetworkExchange) : ∃ miss, bodyPart rt ex' body = .ok miss := by
  cases body with
  | none => exact ⟨none, rfl⟩
  | some body =>
    cases hHeld : requestJsonObject rt ex with
    | none =>
      rw [bodyPart.eq_def, hHeld] at h
      cases h
    | some held =>
      rw [bodyPart.eq_def, hHeld] at h
      rw [bodyPart.eq_def]
      cases requestJsonObject rt ex' with
      | none => exact ⟨_, rfl⟩
      | some parsed => exact bodyMismatch_ok _ h _ _

theorem dictMismatch_none {ex : NetworkExchange} {query : Option (List (String × QueryMatcher))}
    {body : Option (List (String × BodyMatcher))} (h : dictMismatch rt ex query body = .ok none) :
    queryPart rt ex query = .ok none ∧ bodyPart rt ex body = .ok none := by
  rw [dictMismatch] at h
  cases hQuery : queryPart rt ex query with
  | error e =>
    rw [hQuery] at h
    cases h
  | ok miss =>
    rw [hQuery] at h
    cases miss with
    | some miss => cases h
    | none => exact ⟨rfl, h⟩

/-- Dictionaries that hold of one exchange raise only where the parameters of another cannot be read. -/
theorem dictMismatch_error {ex ex' : NetworkExchange} {query : Option (List (String × QueryMatcher))}
    {body : Option (List (String × BodyMatcher))} {e : Failure} (h : dictMismatch rt ex query body = .ok none)
    (hError : dictMismatch rt ex' query body = .error e) : queryParams rt ex' = .error e := by
  obtain ⟨hQuery, hBody⟩ := dictMismatch_none h
  rw [dictMismatch] at hError
  cases query with
  | none =>
    obtain ⟨miss, hMiss⟩ := bodyPart_ok hBody ex'
    exact nomatch hMiss.symm.trans hError
  | some query =>
    cases hParams : queryParams rt ex' with
    | error e' =>
      rw [queryPart, hParams] at hError
      cases hError
      rfl
    | ok params =>
      obtain ⟨miss, hMiss⟩ : ∃ miss, queryMismatch rt params query = .ok miss := by
        cases hHeld : queryParams rt ex with
        | error e' =>
          rw [queryPart, hHeld] at hQuery
          cases hQuery
        | ok held =>
          rw [queryPart, hHeld] at hQuery
          exact queryMismatch_ok hQuery params
      have hPart : queryPart rt ex' (some query) = .ok miss := by
        rw [queryPart, hParams]
        exact hMiss
      rw [hPart] at hError
      cases miss with
      | some miss => cases hError
      | none =>
        obtain ⟨miss, hMiss⟩ := bodyPart_ok hBody ex'
        exact nomatch hMiss.symm.trans hError

/-! Checks one after another. -/

theorem and_true {x y : Except Failure Bool} (h : (x <&&> y) = .ok true) : x = .ok true ∧ y = .ok true := by
  cases x with
  | error e => cases h
  | ok b =>
    cases b with
    | false => cases h
    | true => exact ⟨rfl, h⟩

theorem and_error {x y : Except Failure Bool} {e : Failure} (h : (x <&&> y) = .error e) :
    x = .error e ∨ y = .error e := by
  cases x with
  | error e' => exact .inl h
  | ok b =>
    cases b with
    | false => cases h
    | true => exact .inr h

theorem searches_error {pattern : Option String} {text text' : String} {e : Failure}
    (h : searches rt pattern text = .ok true) : searches rt pattern text' ≠ .error e := by
  cases pattern with
  | none => exact nofun
  | some pattern =>
    rw [searches] at h ⊢
    cases hCompile : compile rt pattern with
    | error e' =>
      rw [hCompile] at h
      cases h
    | ok search => exact nofun

/-- A matcher that accepts one exchange raises only at a URL that cannot be split. -/
theorem matchRequest_error {ex ex' : NetworkExchange} {req : RequestMatch} {e : Failure}
    (h : matchRequest rt ex req = .ok true) (hError : matchRequest rt ex' req = .error e) :
    queryParams rt ex' = .error e := by
  rw [matchRequest] at h hError
  obtain ⟨-, h⟩ := and_true h
  obtain ⟨-, h⟩ := and_true h
  obtain ⟨hUrl, h⟩ := and_true h
  obtain ⟨-, h⟩ := and_true h
  obtain ⟨hPath, h⟩ := and_true h
  obtain ⟨-, h⟩ := and_true h
  obtain ⟨hBody, hDict⟩ := and_true h
  have hError := (and_error hError).resolve_left nofun
  have hError := (and_error hError).resolve_left nofun
  have hError := (and_error hError).resolve_left (searches_error hUrl)
  have hError := (and_error hError).resolve_left nofun
  have hError := (and_error hError).resolve_left (searches_error hPath)
  have hError := (and_error hError).resolve_left nofun
  have hError := (and_error hError).resolve_left ?_
  · split at hError
    · cases hError
    · rename_i hSet
      rw [if_neg hSet] at hDict
      cases hHeld : dictMismatch rt ex req.query req.body with
      | error e' =>
        rw [hHeld] at hDict
        cases hDict
      | ok miss =>
        rw [hHeld] at hDict
        cases miss with
        | some miss => cases hDict
        | none =>
          cases hMiss : dictMismatch rt ex' req.query req.body with
          | ok miss =>
            rw [hMiss] at hError
            cases hError
          | error e' =>
            rw [hMiss] at hError
            cases hError
            exact dictMismatch_error hHeld hMiss
  · cases hPattern : req.bodyMatches with
    | none => exact nofun
    | some pattern =>
      rw [hPattern] at hBody
      cases hText : ex.requestBody with
      | none =>
        rw [hText] at hBody
        cases hBody
      | some text =>
        rw [hText] at hBody
        cases ex'.requestBody with
        | none => exact nofun
        | some text' => exact searches_error hBody

end Raises

/-- The outcome of one check. -/
structure AssertionResult where
  ok : Bool
  kind : String
  detail : String
  reason : String

/-- The conjunction of a block. -/
def passed (results : List AssertionResult) : Bool := results.all (·.ok)

end Bajutsu.Assertions
