import Bajutsu.Lib.Raising
import Bajutsu.Orchestrator.HttpPath

/-!
# The `http` step

The step sends a request and writes variables from two sources: the body as a whole, and the fields that are extracted from
it. All fields are resolved before the first is written, but the body is saved before. Of what the transport raises only a
`URLError` becomes a step failure.
-/

namespace Bajutsu.Orchestrator.Http

open PyText PyValue
open Scenarios (Piece pieces interpStr keyOf)

structure ExtractField where
  var : String
  path : String

structure HttpRequest where
  method : String
  url : String
  headers : Option (List (String × String))
  body : Option String
  status : Option Int
  saveBody : Option String
  extractBody : Option (List ExtractField)

/-- The reasons of a `SelectorError`. -/
inductive HttpError where
  | unbound (var path token : String)
  | notOneSegment (var path value : String)
  | unresolvedVar (var substituted : String)
  | emptyVar (var : String)
  | malformed (var path : String) (e : PathError)
  | keyOfNonObject (var path name : String)
  | missingKey (var path name : String)
  | indexOfNonArray (var path : String) (n : Nat)
  | outOfRange (var path : String) (n length : Nat)
  | duplicateVar (var : String)
  | notJson (message : String)
  | scheme (url : String)
  | requestFailed (reason : String)
  | wrongStatus (expected actual : Int)

section Messages

variable (repr : String → String)

def PathError.reason : PathError → String
  | .empty => "empty path"
  | .unterminated => "unterminated '['"
  | .index digits => "index " ++ repr (String.ofList digits) ++ " is not a non-negative integer"
  | .unexpected c position => "unexpected " ++ repr (String.singleton c) ++ " at position " ++ toString position
  | .emptyKey => "empty key segment"
  | .int _ => ""

def extracting (var path : String) : String := "http: extractBody var " ++ repr var ++ " path " ++ repr path

def HttpError.message : HttpError → String
  | unbound var path token => extracting repr var path ++ " — " ++ token ++ " did not resolve to a value"
  | notOneSegment var path value =>
    extracting repr var path ++ " — substituted value " ++ repr value ++
      " must supply exactly one non-empty path segment (no '.', '[', or ']')"
  | unresolvedVar var substituted =>
    "http: extractBody var " ++ repr var ++ " did not fully resolve (still " ++ repr substituted ++ ")"
  | emptyVar var =>
    "http: extractBody var " ++ repr var ++ " substituted to an empty name — no later $" ++
      "\x7bvars.*\x7d reference could read the value back"
  | malformed var path e => extracting repr var path ++ " is malformed: " ++ e.reason repr
  | keyOfNonObject var path name => extracting repr var path ++ " — key " ++ repr name ++ " applied to a non-object value"
  | missingKey var path name => extracting repr var path ++ " — missing key " ++ repr name
  | indexOfNonArray var path n =>
    extracting repr var path ++ " — index " ++ toString n ++ " applied to a non-array value"
  | outOfRange var path n length =>
    extracting repr var path ++ " — index " ++ toString n ++ " out of range (length " ++ toString length ++ ")"
  | duplicateVar var =>
    "http: var " ++ repr var ++ " is used more than once across extractBody/saveBody on the same step"
  | notJson message => "http: extractBody — response body is not valid JSON: " ++ message
  | scheme url => "http: only http/https URLs are allowed, got " ++ repr url
  | requestFailed reason => "http: request failed: " ++ reason
  | wrongStatus expected actual => "http: expected status " ++ toString expected ++ ", got " ++ toString actual

end Messages

/-! ## The transport -/

/-- An exception of the transport other than an `HTTPError`. -/
inductive Failure where
  | url (reason : String)
  | os
  | httpException
  | value

/-- What `urlopen` comes to, with what reading the body comes to. -/
inductive Opened where
  | response (status : Int) (read : Except Failure (List UInt8))
  | httpError (code : Int) (read : Except Failure (List UInt8))
  | raised (f : Failure)

structure Sent where
  url : String
  data : Option String
  headers : List (String × String)
  method : String

/-- What `json.loads` comes to. -/
inductive Loaded where
  | value (doc : Val)
  | invalid (message : String)
  /-- A `RecursionError`, which is no `ValueError`. -/
  | tooDeep

/-- What the step raises. -/
inductive Raised where
  | selector (e : HttpError)
  | transport (f : Failure)
  /-- The `ValueError` of `int()`. -/
  | value (digits : Nat)
  | recursion

/-- The parts of Python that the step uses. -/
structure Python where
  urlopen : Sent → Opened
  /-- `bytes.decode("utf-8", errors="replace")`. -/
  decode : List UInt8 → String
  loads : String → Loaded
  /-- `json.dumps` of an array or object, without blanks. -/
  dumps : Val → String
  /-- `str()` of a number. -/
  str : Val → String

abbrev Bindings : Type := List (String × String)

/-! ## Substitution -/

/-- Whether a text holds `$` and an opening brace. -/
def opensToken : List Char → Bool
  | '$' :: '{' :: _ => true
  | _ :: rest => opensToken rest
  | [] => false

def substitutePiece (var path : String) (bindings : Bindings) : Piece → Except HttpError (List Char)
  | .char c => .ok [c]
  | .token key =>
    match get bindings (keyOf key) with
    | none => .error (.unbound var path (String.ofList ('$' :: '{' :: key ++ ['}'])))
    | some value =>
      if value = "" ∨ value.toList.all isKeyChar = false then .error (.notOneSegment var path value) else .ok value.toList

def substitutePath (path var : String) (bindings : Bindings) : Except HttpError (List Char) :=
  ((pieces path).mapM (substitutePiece var path bindings)).map List.flatten

def substituteVar (var : String) (bindings : Bindings) : Except HttpError String :=
  let substituted := interpStr bindings var
  if opensToken substituted.toList then .error (.unresolvedVar var substituted)
  else if substituted = "" then .error (.emptyVar var)
  else .ok substituted

def substituteField (bindings : Bindings) (field : ExtractField) : Except HttpError (String × List Char) := do
  let var ← substituteVar field.var bindings
  let path ← substitutePath field.path field.var bindings
  return (var, path)

/-- The first name that repeats, or that is the saved body's. -/
def firstDuplicateVar : List String → List String → Option String
  | _, [] => none
  | seen, name :: names => if name ∈ seen then some name else firstDuplicateVar (name :: seen) names

/-! ## The fields of a body -/

def resolvePath (var path : String) : Val → List PathSeg → Except HttpError Val
  | current, [] => .ok current
  | current, .key name :: rest =>
    match current with
    | .dict items =>
      match get items (String.ofList name) with
      | none => .error (.missingKey var path (String.ofList name))
      | some inner => resolvePath var path inner rest
    | _ => .error (.keyOfNonObject var path (String.ofList name))
  | current, .index n :: rest =>
    match current with
    | .list xs =>
      match xs[n]? with
      | none => .error (.outOfRange var path n xs.length)
      | some inner => resolvePath var path inner rest
    | _ => .error (.indexOfNonArray var path n)

def resolveEntry (doc : Val) (entry : String × List Char) : Except Raised (String × Val) :=
  match parsePath entry.2 with
  | .error (.int digits) => .error (.value digits)
  | .error e => .error (.selector (.malformed entry.1 (String.ofList entry.2) e))
  | .ok segs =>
    match resolvePath entry.1 (String.ofList entry.2) doc segs with
    | .error e => .error (.selector e)
    | .ok value => .ok (entry.1, value)

section Step

variable (py : Python)

/-- `resolved if isinstance(resolved, str) else json_text(resolved)`. -/
def shown : Val → String
  | .str s => s
  | .bool b => if b then "true" else "false"
  | .null => "null"
  | .dict items => py.dumps (.dict items)
  | .list xs => py.dumps (.list xs)
  | v => py.str v

def varKey (name : String) : String := "vars." ++ name

def writeAll (bindings : Bindings) (values : List (String × Val)) : Bindings :=
  values.foldl (fun bindings value => set bindings (varKey value.1) (shown py value.2)) bindings

def extractFields (http : HttpRequest) (fields : List ExtractField) (body : String) (bindings : Bindings) :
    Except Raised Bindings := do
  let entries ← (fields.mapM (substituteField bindings)).mapError Raised.selector
  match firstDuplicateVar http.saveBody.toList (entries.map Prod.fst) with
  | some var => .error (.selector (.duplicateVar var))
  | none =>
    match py.loads body with
    | .invalid message => .error (.selector (.notJson message))
    | .tooDeep => .error .recursion
    | .value doc => do
      let values ← entries.mapM (resolveEntry doc)
      return writeAll py bindings values

def extractBodyFields (http : HttpRequest) (body : String) (bindings : Bindings) : Except Raised Bindings :=
  match http.extractBody with
  | none | some [] => .ok bindings
  | some fields => extractFields py http fields body bindings

def save (http : HttpRequest) (body : String) (bindings : Bindings) : Bindings :=
  match http.saveBody with
  | none => bindings
  | some name => set bindings (varKey name) body

/-- The bindings that are left, and what is raised. -/
abbrev Outcome : Type := Option Bindings × Except Raised Unit

/-- The step from the response on. -/
def received (http : HttpRequest) (bindings : Option Bindings) (status : Int) (body : String) : Outcome :=
  match http.status with
  | some expected =>
    if status ≠ expected then (bindings, .error (.selector (.wrongStatus expected status))) else stored
  | none => stored
where
  stored : Outcome :=
    match bindings with
    | none => (none, .ok ())
    | some bindings =>
      match extractBodyFields py http body (save http body bindings) with
      | .error e => (some (save http body bindings), .error e)
      | .ok final => (some final, .ok ())

def allowed (url : String) : Bool := "http://".toList.isPrefixOf url.toList || "https://".toList.isPrefixOf url.toList

def sent (http : HttpRequest) : Sent where
  url := http.url
  data := http.body.bind fun body => if body = "" then none else some body
  headers := http.headers.getD []
  method := http.method

def doHttp (http : HttpRequest) (bindings : Option Bindings) : Outcome :=
  if !allowed http.url then (bindings, .error (.selector (.scheme http.url)))
  else
    match py.urlopen (sent http) with
    | .response status (.ok bytes) => received py http bindings status (py.decode bytes)
    | .httpError code (.ok bytes) => received py http bindings code (py.decode bytes)
    | .response _ (.error (.url reason)) | .raised (.url reason) => (bindings, .error (.selector (.requestFailed reason)))
    | .response _ (.error f) | .httpError _ (.error f) | .raised f => (bindings, .error (.transport f))

end Step

/-! ## What an extraction asks for -/

/-- What a token stands for; nothing where it is not bound. -/
def valueOf (bindings : Bindings) (key : List Char) : List Char :=
  ((get bindings (keyOf key)).map String.toList).getD []

/-- The name and the path of a field after substitution. -/
structure Names (bindings : Bindings) (field : ExtractField) (entry : String × List Char) : Prop where
  var : entry.1 = interpStr bindings field.var
  resolved : opensToken entry.1.toList = false
  nonempty : entry.1 ≠ ""
  tokens : OneSegment (valueOf bindings) (pieces field.path)
  path : entry.2 = fillAll (valueOf bindings) (pieces field.path)

/-- The entries of the fields, each of its own variable. -/
structure Entries (http : HttpRequest) (fields : List ExtractField) (bindings : Bindings)
    (entries : List (String × List Char)) : Prop where
  names : List.Forall₂ (Names bindings) fields entries
  distinct : (entries.map Prod.fst).Nodup
  unsaved : ∀ name, http.saveBody = some name → name ∉ entries.map Prod.fst

/-- The value that a path leads to. -/
inductive Walk : Val → List PathSeg → Val → Prop where
  | here (v : Val) : Walk v [] v
  | key {items : List (String × Val)} {name : List Char} {inner v : Val} {rest : List PathSeg} :
    get items (String.ofList name) = some inner → Walk inner rest v → Walk (.dict items) (.key name :: rest) v
  | index {xs : List Val} {n : Nat} {inner v : Val} {rest : List PathSeg} :
    xs[n]? = some inner → Walk inner rest v → Walk (.list xs) (.index n :: rest) v

def Leads (doc : Val) (path : List Char) (v : Val) : Prop :=
  ∃ segments, Grammar path segments ∧ (∀ w ∈ segments, w.Short) ∧ Walk doc (segments.map Written.seg) v

/-- Every field leads to a value. -/
def Extracts (py : Python) (http : HttpRequest) (fields : List ExtractField) (body : String) (bindings : Bindings)
    (values : List (String × Val)) : Prop :=
  ∃ entries doc, Entries http fields bindings entries ∧ py.loads body = .value doc ∧
    List.Forall₂ (fun entry value => value.1 = entry.1 ∧ Leads doc entry.2 value.2) entries values

/-- The body is nested too deeply, or a field is reached whose index `int()` refuses. -/
def Breaks (py : Python) (http : HttpRequest) (fields : List ExtractField) (body : String) (bindings : Bindings) : Prop :=
  ∃ entries, Entries http fields bindings entries ∧
    (py.loads body = .tooDeep ∨ ∃ doc, py.loads body = .value doc ∧
      ∃ front entry rest, entries = front ++ entry :: rest ∧ (∀ e ∈ front, ∃ v, Leads doc e.2 v) ∧ Overlong entry.2)

section Extraction

variable {py : Python} {http : HttpRequest} {fields : List ExtractField} {body : String} {bindings : Bindings}

theorem substitutePiece_ok_iff {var path : String} {piece : Piece} {text : List Char} :
    substitutePiece var path bindings piece = .ok text ↔
      OneSegment (valueOf bindings) [piece] ∧ text = fill (valueOf bindings) piece := by
  cases piece with
  | char c =>
    constructor
    · intro h
      obtain rfl := Except.ok.inj h
      exact ⟨fun key hMem => absurd (List.mem_singleton.mp hMem) (by simp), rfl⟩
    · rintro ⟨-, rfl⟩
      rfl
  | token key =>
    have hOne : OneSegment (valueOf bindings) [.token key] ↔
        valueOf bindings key ≠ [] ∧ ∀ c ∈ valueOf bindings key, isKeyChar c = true := by
      simp [OneSegment]
    rw [hOne, fill, substitutePiece]
    cases hGet : get bindings (keyOf key) with
    | none => simp [valueOf, hGet]
    | some value =>
      have hValue : valueOf bindings key = value.toList := by simp [valueOf, hGet]
      have hEmpty : value = "" ↔ value.toList = [] := by simp
      rw [hValue]
      dsimp only
      split
      · rename_i hBad
        constructor
        · intro h
          cases h
        · rintro ⟨⟨hNe, hAll⟩, -⟩
          rcases hBad with hBad | hBad
          · exact absurd (hEmpty.mp hBad) hNe
          · rw [List.all_eq_true.mpr hAll] at hBad
            cases hBad
      · rename_i hGood
        rw [not_or, Bool.not_eq_false, List.all_eq_true, hEmpty] at hGood
        simp only [Except.ok.injEq]
        exact ⟨fun h => ⟨hGood, h.symm⟩, fun h => h.2.symm⟩

theorem substitutePath_ok_iff {var path : String} {text : List Char} :
    substitutePath path var bindings = .ok text ↔
      OneSegment (valueOf bindings) (pieces path) ∧ text = fillAll (valueOf bindings) (pieces path) := by
  have hAll : ∀ (ps : List Piece) (texts : List (List Char)),
      List.Forall₂ (fun piece text => substitutePiece var path bindings piece = .ok text) ps texts ↔
        OneSegment (valueOf bindings) ps ∧ texts = ps.map (fill (valueOf bindings)) := by
    intro ps
    induction ps with
    | nil =>
      intro texts
      simp [OneSegment]
    | cons piece ps ih =>
      intro texts
      have hSplit : OneSegment (valueOf bindings) (piece :: ps) ↔
          OneSegment (valueOf bindings) [piece] ∧ OneSegment (valueOf bindings) ps := by
        simp only [OneSegment, List.mem_cons, List.not_mem_nil, or_false]
        exact ⟨fun h => ⟨fun key hk => h key (.inl hk), fun key hk => h key (.inr hk)⟩,
          fun h key hk => hk.elim (h.1 key) (h.2 key)⟩
      rw [List.forall₂_cons_left_iff, hSplit]
      constructor
      · rintro ⟨text, rest, hHead, hTail, rfl⟩
        obtain ⟨hPiece, rfl⟩ := substitutePiece_ok_iff.mp hHead
        obtain ⟨hRest, rfl⟩ := (ih _).mp hTail
        exact ⟨⟨hPiece, hRest⟩, rfl⟩
      · rintro ⟨⟨hPiece, hRest⟩, rfl⟩
        exact ⟨_, _, substitutePiece_ok_iff.mpr ⟨hPiece, rfl⟩, (ih _).mpr ⟨hRest, rfl⟩, rfl⟩
  rw [substitutePath, map_eq_ok]
  simp only [Raising.mapM_eq_ok_iff, hAll]
  constructor
  · rintro ⟨texts, ⟨hOne, rfl⟩, rfl⟩
    exact ⟨hOne, rfl⟩
  · rintro ⟨hOne, rfl⟩
    exact ⟨_, ⟨hOne, rfl⟩, rfl⟩

theorem substituteField_ok_iff {field : ExtractField} {entry : String × List Char} :
    substituteField bindings field = .ok entry ↔ Names bindings field entry := by
  have hVar : ∀ {name : String}, substituteVar field.var bindings = .ok name ↔
      name = interpStr bindings field.var ∧ opensToken name.toList = false ∧ name ≠ "" := by
    intro name
    rw [substituteVar]
    split
    · rename_i hOpen
      constructor
      · intro h
        cases h
      · rintro ⟨rfl, hNot, -⟩
        rw [hOpen] at hNot
        cases hNot
    · rename_i hOpen
      split
      · rename_i hEmpty
        constructor
        · intro h
          cases h
        · rintro ⟨rfl, -, hNe⟩
          exact absurd hEmpty hNe
      · rename_i hNe
        rw [Bool.not_eq_true] at hOpen
        constructor
        · intro h
          obtain rfl := Except.ok.inj h
          exact ⟨rfl, hOpen, hNe⟩
        · rintro ⟨rfl, -, -⟩
          rfl
  obtain ⟨name, path⟩ := entry
  constructor
  · intro h
    obtain ⟨name', hName, h⟩ := bind_eq_ok h
    obtain ⟨path', hPath, h⟩ := bind_eq_ok h
    cases h
    obtain ⟨hInterp, hResolved, hNe⟩ := hVar.mp hName
    obtain ⟨hTokens, hText⟩ := substitutePath_ok_iff.mp hPath
    exact ⟨hInterp, hResolved, hNe, hTokens, hText⟩
  · intro h
    have hName := hVar.mpr ⟨h.var, h.resolved, h.nonempty⟩
    have hPath : substitutePath field.path field.var bindings = .ok path := substitutePath_ok_iff.mpr ⟨h.tokens, h.path⟩
    rw [substituteField, hName]
    simp only [bind, Except.bind, hPath]
    rfl

theorem firstDuplicateVar_eq_none_iff {names seen : List String} :
    firstDuplicateVar seen names = none ↔ names.Nodup ∧ ∀ name ∈ seen, name ∉ names := by
  induction names generalizing seen with
  | nil => simp [firstDuplicateVar]
  | cons name names ih =>
    rw [firstDuplicateVar]
    split
    · rename_i hSeen
      simp only [reduceCtorEq, false_iff, not_and]
      intro _ hNot
      exact hNot name hSeen List.mem_cons_self
    · rename_i hNew
      rw [ih, List.nodup_cons]
      simp only [List.mem_cons, not_or]
      constructor
      · rintro ⟨hNodup, hAll⟩
        refine ⟨⟨hAll name (.inl rfl), hNodup⟩, fun other hOther => ⟨?_, hAll other (.inr hOther)⟩⟩
        rintro rfl
        exact hNew hOther
      · rintro ⟨⟨hName, hNodup⟩, hAll⟩
        refine ⟨hNodup, fun other hOther => ?_⟩
        rcases hOther with rfl | hOther
        · exact hName
        · exact (hAll other hOther).2

theorem resolvePath_ok_iff {var path : String} {doc v : Val} {segs : List PathSeg} :
    resolvePath var path doc segs = .ok v ↔ Walk doc segs v := by
  constructor
  · intro h
    induction segs generalizing doc with
    | nil =>
      obtain rfl := Except.ok.inj h
      exact .here doc
    | cons seg rest ih =>
      cases seg with
      | key name =>
        cases doc <;> simp only [resolvePath] at h
        case dict items =>
          cases hGet : get items (String.ofList name) with
          | none =>
            rw [hGet] at h
            cases h
          | some inner =>
            rw [hGet] at h
            exact .key hGet (ih h)
        all_goals cases h
      | index n =>
        cases doc <;> simp only [resolvePath] at h
        case list xs =>
          cases hGet : xs[n]? with
          | none =>
            rw [hGet] at h
            cases h
          | some inner =>
            rw [hGet] at h
            exact .index hGet (ih h)
        all_goals cases h
  · intro h
    induction h with
    | here v => rfl
    | key hGet _ ih =>
      simp only [resolvePath, hGet]
      exact ih
    | index hGet _ ih =>
      simp only [resolvePath, hGet]
      exact ih

theorem resolveEntry_cases (doc : Val) (entry : String × List Char) :
    (∃ v, resolveEntry doc entry = .ok (entry.1, v) ∧ Leads doc entry.2 v) ∨
    ((∃ e, resolveEntry doc entry = .error (.selector e)) ∧ (¬ ∃ v, Leads doc entry.2 v) ∧ ¬ Overlong entry.2) ∨
    ((∃ n, resolveEntry doc entry = .error (.value n)) ∧ (¬ ∃ v, Leads doc entry.2 v) ∧ Overlong entry.2) := by
  have hLeads : ∀ {v}, Leads doc entry.2 v → ∃ segs, parsePath entry.2 = .ok segs ∧ Walk doc segs v := by
    rintro v ⟨segments, hGrammar, hShort, hWalk⟩
    exact ⟨_, parsePath_ok_iff.mpr ⟨segments, hGrammar, hShort, rfl⟩, hWalk⟩
  cases hParse : parsePath entry.2 with
  | error e =>
    have hNot : ¬ ∃ v, Leads doc entry.2 v := by
      rintro ⟨v, hv⟩
      obtain ⟨segs, hSegs, -⟩ := hLeads hv
      rw [hParse] at hSegs
      cases hSegs
    rw [← parsePath_int_iff, hParse]
    cases e with
    | int n => exact .inr (.inr ⟨⟨n, by rw [resolveEntry, hParse]⟩, hNot, n, rfl⟩)
    | _ => exact .inr (.inl ⟨⟨_, by rw [resolveEntry, hParse]⟩, hNot, by simp⟩)
  | ok segs =>
    cases hResolve : resolvePath entry.1 (String.ofList entry.2) doc segs with
    | error e =>
      refine .inr (.inl ⟨⟨e, by rw [resolveEntry, hParse]; simp only [hResolve]⟩, ?_, ?_⟩)
      · rintro ⟨v, hv⟩
        obtain ⟨segs', hSegs, hWalk⟩ := hLeads hv
        rw [hParse] at hSegs
        obtain rfl := Except.ok.inj hSegs
        rw [resolvePath_ok_iff.mpr hWalk] at hResolve
        cases hResolve
      · rw [← parsePath_int_iff, hParse]
        simp
    | ok v =>
      left
      obtain ⟨segments, hGrammar, hShort, rfl⟩ := parsePath_ok_iff.mp hParse
      exact ⟨v, by rw [resolveEntry, hParse]; simp only [hResolve],
        segments, hGrammar, hShort, resolvePath_ok_iff.mp hResolve⟩

/-- An index that `int()` refuses is met before a field that leads nowhere. -/
def Reached (doc : Val) (entries : List (String × List Char)) : Prop :=
  ∃ front entry rest, entries = front ++ entry :: rest ∧ (∀ e ∈ front, ∃ v, Leads doc e.2 v) ∧ Overlong entry.2

theorem reached_cons {doc : Val} {entry : String × List Char} {entries : List (String × List Char)} :
    Reached doc (entry :: entries) ↔ Overlong entry.2 ∨ (∃ v, Leads doc entry.2 v) ∧ Reached doc entries := by
  constructor
  · rintro ⟨front, e, rest, hSplit, hFront, hLong⟩
    cases front with
    | nil =>
      obtain ⟨rfl, -⟩ := List.cons.inj hSplit
      exact .inl hLong
    | cons first front =>
      obtain ⟨rfl, hRest⟩ := List.cons.inj hSplit
      obtain ⟨hFirst, hFront⟩ := List.forall_mem_cons.mp hFront
      exact .inr ⟨hFirst, front, e, rest, hRest, hFront, hLong⟩
  · rintro (hLong | ⟨hLeads, front, e, rest, rfl, hFront, hLong⟩)
    · exact ⟨[], entry, entries, rfl, by simp, hLong⟩
    · exact ⟨entry :: front, e, rest, rfl, List.forall_mem_cons.mpr ⟨hLeads, hFront⟩, hLong⟩

theorem resolveEntries_cases (doc : Val) (entries : List (String × List Char)) :
    (∃ values, entries.mapM (resolveEntry doc) = .ok values ∧
      List.Forall₂ (fun entry value => value.1 = entry.1 ∧ Leads doc entry.2 value.2) entries values) ∨
    ((∃ e, entries.mapM (resolveEntry doc) = .error (.selector e)) ∧ (∃ entry ∈ entries, ¬ ∃ v, Leads doc entry.2 v) ∧
      ¬ Reached doc entries) ∨
    ((∃ n, entries.mapM (resolveEntry doc) = .error (.value n)) ∧ (∃ entry ∈ entries, ¬ ∃ v, Leads doc entry.2 v) ∧
      Reached doc entries) := by
  induction entries with
  | nil => exact .inl ⟨[], rfl, .nil⟩
  | cons entry entries ih =>
    rw [reached_cons, List.mapM_cons]
    have hLater : (∃ entry ∈ entries, ¬ ∃ v, Leads doc entry.2 v) → ∃ e ∈ entry :: entries, ¬ ∃ v, Leads doc e.2 v := by
      rintro ⟨e, hMem, hNot⟩
      exact ⟨e, List.mem_cons_of_mem _ hMem, hNot⟩
    rcases resolveEntry_cases doc entry with ⟨v, hOk, hLeads⟩ | ⟨⟨e, hError⟩, hNot, hShort⟩ | ⟨⟨n, hError⟩, hNot, hLong⟩
    · have hShort : ¬ Overlong entry.2 := by
        obtain ⟨segments, hGrammar, hAll, -⟩ := hLeads
        rw [← parsePath_int_iff, parsePath_ok_iff.mpr ⟨segments, hGrammar, hAll, rfl⟩]
        simp
      rw [hOk]
      rcases ih with ⟨values, hRest, hAll⟩ | ⟨⟨e, hRest⟩, hNot, hFar⟩ | ⟨⟨n, hRest⟩, hNot, hNear⟩
      · exact .inl ⟨(entry.1, v) :: values, by rw [hRest]; rfl, .cons ⟨rfl, hLeads⟩ hAll⟩
      · exact .inr (.inl ⟨⟨e, by rw [hRest]; rfl⟩, hLater hNot, by simp [hShort, hFar]⟩)
      · exact .inr (.inr ⟨⟨n, by rw [hRest]; rfl⟩, hLater hNot, .inr ⟨⟨v, hLeads⟩, hNear⟩⟩)
    · exact .inr (.inl ⟨⟨e, by rw [hError]; rfl⟩, ⟨entry, List.mem_cons_self, hNot⟩, by simp [hShort, hNot]⟩)
    · exact .inr (.inr ⟨⟨n, by rw [hError]; rfl⟩, ⟨entry, List.mem_cons_self, hNot⟩, .inl hLong⟩)

theorem entries_iff {entries : List (String × List Char)} :
    Entries http fields bindings entries ↔
      fields.mapM (substituteField bindings) = .ok entries ∧
        firstDuplicateVar http.saveBody.toList (entries.map Prod.fst) = none := by
  have hNames : fields.mapM (substituteField bindings) = .ok entries ↔ List.Forall₂ (Names bindings) fields entries := by
    rw [Raising.mapM_eq_ok_iff]
    simp only [substituteField_ok_iff]
  rw [hNames, firstDuplicateVar_eq_none_iff]
  simp only [Option.mem_toList]
  exact ⟨fun h => ⟨h.names, h.distinct, h.unsaved⟩, fun h => ⟨h.1, h.2.1, h.2.2⟩⟩

theorem entries_unique {entries entries' : List (String × List Char)} (h : Entries http fields bindings entries)
    (h' : Entries http fields bindings entries') : entries = entries' := by
  have hMap := (entries_iff.mp h).1
  rw [(entries_iff.mp h').1] at hMap
  exact (Except.ok.inj hMap).symm

theorem extractFields_cases (py : Python) (http : HttpRequest) (fields : List ExtractField) (body : String)
    (bindings : Bindings) :
    (∃ values, extractFields py http fields body bindings = .ok (writeAll py bindings values) ∧
      Extracts py http fields body bindings values) ∨
    ((∃ e, extractFields py http fields body bindings = .error (.selector e)) ∧
      (¬ ∃ values, Extracts py http fields body bindings values) ∧ ¬ Breaks py http fields body bindings) ∨
    ((∃ r, extractFields py http fields body bindings = .error r ∧ ∀ e, r ≠ .selector e) ∧
      (¬ ∃ values, Extracts py http fields body bindings values) ∧ Breaks py http fields body bindings) := by
  cases hMap : fields.mapM (substituteField bindings) with
  | error e =>
    have hNone : ¬ ∃ entries, Entries http fields bindings entries := by
      rintro ⟨entries, h⟩
      rw [(entries_iff.mp h).1] at hMap
      cases hMap
    refine .inr (.inl ⟨⟨e, by rw [extractFields, hMap]; rfl⟩, ?_, ?_⟩)
    · rintro ⟨values, entries, -, h, -⟩
      exact hNone ⟨entries, h⟩
    · rintro ⟨entries, h, -⟩
      exact hNone ⟨entries, h⟩
  | ok entries =>
    cases hDup : firstDuplicateVar http.saveBody.toList (entries.map Prod.fst) with
    | some var =>
      have hNone : ¬ ∃ entries, Entries http fields bindings entries := by
        rintro ⟨entries', h⟩
        obtain ⟨hMap', hDup'⟩ := entries_iff.mp h
        rw [hMap] at hMap'
        obtain rfl := Except.ok.inj hMap'
        rw [hDup] at hDup'
        cases hDup'
      refine .inr (.inl ⟨⟨.duplicateVar var, ?_⟩, ?_, ?_⟩)
      · rw [extractFields, hMap]
        simp only [Except.mapError, bind, Except.bind, hDup]
      · rintro ⟨values, entries', -, h, -⟩
        exact hNone ⟨entries', h⟩
      · rintro ⟨entries', h, -⟩
        exact hNone ⟨entries', h⟩
    | none =>
      have hEntries : Entries http fields bindings entries := entries_iff.mpr ⟨hMap, hDup⟩
      have hStep : extractFields py http fields body bindings =
          match py.loads body with
          | .invalid message => .error (.selector (.notJson message))
          | .tooDeep => .error .recursion
          | .value doc => (entries.mapM (resolveEntry doc)).map (writeAll py bindings) := by
        rw [extractFields, hMap]
        simp only [Except.mapError, bind, Except.bind, hDup]
        cases py.loads body with
        | value doc => cases entries.mapM (resolveEntry doc) <;> rfl
        | invalid message => rfl
        | tooDeep => rfl
      cases hLoads : py.loads body with
      | invalid message =>
        refine .inr (.inl ⟨⟨.notJson message, by rw [hStep, hLoads]⟩, ?_, ?_⟩)
        · rintro ⟨values, entries', doc, -, hDoc, -⟩
          rw [hLoads] at hDoc
          cases hDoc
        · rintro ⟨entries', -, hDeep | ⟨doc, hDoc, -⟩⟩
          · rw [hLoads] at hDeep
            cases hDeep
          · rw [hLoads] at hDoc
            cases hDoc
      | tooDeep =>
        refine .inr (.inr ⟨⟨.recursion, by rw [hStep, hLoads], by simp⟩, ?_, entries, hEntries, .inl hLoads⟩)
        rintro ⟨values, entries', doc, -, hDoc, -⟩
        rw [hLoads] at hDoc
        cases hDoc
      | value doc =>
        rw [hLoads] at hStep
        dsimp only at hStep
        have hBreaks : Breaks py http fields body bindings ↔ Reached doc entries := by
          constructor
          · rintro ⟨entries', h, hDeep | ⟨doc', hDoc, hReached⟩⟩
            · rw [hLoads] at hDeep
              cases hDeep
            · rw [hLoads] at hDoc
              obtain rfl := Loaded.value.inj hDoc
              rwa [entries_unique hEntries h]
          · intro hReached
            exact ⟨entries, hEntries, .inr ⟨doc, hLoads, hReached⟩⟩
        have hNone : (∃ entry ∈ entries, ¬ ∃ v, Leads doc entry.2 v) → ¬ ∃ values, Extracts py http fields body bindings values := by
          rintro ⟨entry, hMem, hNot⟩ ⟨values, entries', doc', h, hDoc, hAll⟩
          rw [hLoads] at hDoc
          obtain rfl := Loaded.value.inj hDoc
          obtain rfl := entries_unique hEntries h
          obtain ⟨value, -, -, hLeads⟩ := Raising.exists_of_forall₂ hAll hMem
          exact hNot ⟨value.2, hLeads⟩
        rcases resolveEntries_cases doc entries with ⟨values, hOk, hAll⟩ | ⟨⟨e, hError⟩, hNot, hFar⟩ | ⟨⟨n, hError⟩, hNot, hNear⟩
        · exact .inl ⟨values, by rw [hStep, hOk]; rfl, entries, doc, hEntries, hLoads, hAll⟩
        · exact .inr (.inl ⟨⟨e, by rw [hStep, hError]; rfl⟩, hNone hNot, fun h => hFar (hBreaks.mp h)⟩)
        · exact .inr (.inr ⟨⟨.value n, by rw [hStep, hError]; rfl, by simp⟩, hNone hNot, hBreaks.mpr hNear⟩)

end Extraction

/-! ## A step that fails cleanly -/

section Clean

variable {py : Python} {http : HttpRequest} {body : String} {bindings : Bindings}

/-- A response, or an error response, that is read in full. -/
inductive Answered : Opened → Int → List UInt8 → Prop where
  | response (status : Int) (bytes : List UInt8) : Answered (.response status (.ok bytes)) status bytes
  | httpError (code : Int) (bytes : List UInt8) : Answered (.httpError code (.ok bytes)) code bytes

/-- A `URLError`, at connect or while a response is read. -/
inductive Refused : Opened → Prop where
  | raised (reason : String) : Refused (.raised (.url reason))
  | reading (status : Int) (reason : String) : Refused (.response status (.error (.url reason)))

def fieldsOf (http : HttpRequest) : List ExtractField := http.extractBody.getD []

/-- The variables of the step after it succeeded on a body. -/
structure Populated (py : Python) (http : HttpRequest) (body : String) (before after : Bindings)
    (values : List (String × Val)) : Prop where
  fields : fieldsOf http = [] ∧ values = [] ∨
    fieldsOf http ≠ [] ∧ Extracts py http (fieldsOf http) body (save http body before) values
  saved : ∀ name, http.saveBody = some name → get after (varKey name) = some body
  extracted : ∀ value ∈ values, get after (varKey value.1) = some (shown py value.2)
  others : ∀ key, (∀ name, http.saveBody = some name → key ≠ varKey name) →
    (∀ value ∈ values, key ≠ varKey value.1) → get after key = get before key

def Unchanged (before after : Bindings) : Prop := ∀ name, get after (varKey name) = get before (varKey name)

/-- The step succeeds with all its variables, or raises a `SelectorError` with no variable changed. -/
def Clean (py : Python) (http : HttpRequest) (bindings : Option Bindings) (outcome : Outcome) : Prop :=
  match outcome.2 with
  | .ok () => ∃ status bytes, Answered (py.urlopen (sent http)) status bytes ∧
      (∀ expected, http.status = some expected → status = expected) ∧
      ∀ before, bindings = some before →
        ∃ after values, outcome.1 = some after ∧ Populated py http (py.decode bytes) before after values
  | .error (.selector _) => ∀ before, bindings = some before → ∃ after, outcome.1 = some after ∧ Unchanged before after
  | .error _ => False

/-- Saving the body changes no variable. -/
def Kept (http : HttpRequest) (body : String) (before : Bindings) : Prop :=
  ∀ name, http.saveBody = some name → get before (varKey name) = some body

/-- Every field leads to a value, or saving the body changes nothing and the extraction does not break. -/
def SafeBody (py : Python) (http : HttpRequest) (body : String) (before : Bindings) : Prop :=
  fieldsOf http = [] ∨ (∃ values, Extracts py http (fieldsOf http) body (save http body before) values) ∨
    Kept http body before ∧ ¬ Breaks py http (fieldsOf http) body (save http body before)

def Safe (py : Python) (http : HttpRequest) (bindings : Option Bindings) : Prop :=
  allowed http.url = false ∨ Refused (py.urlopen (sent http)) ∨
    ∃ status bytes, Answered (py.urlopen (sent http)) status bytes ∧
      ((∃ expected, http.status = some expected ∧ status ≠ expected) ∨
        ∀ before, bindings = some before → SafeBody py http (py.decode bytes) before)

theorem varKey_inj {name name' : String} (h : varKey name = varKey name') : name = name' := by
  have hChars := congrArg String.toList h
  simp only [varKey, String.toList_append] at hChars
  exact String.toList_inj.mp (List.append_cancel_left hChars)

theorem get_writeAll_other {key : String} {values : List (String × Val)} (h : ∀ value ∈ values, key ≠ varKey value.1) :
    get (writeAll py bindings values) key = get bindings key := by
  induction values generalizing bindings with
  | nil => rfl
  | cons value values ih =>
    obtain ⟨hKey, h⟩ := List.forall_mem_cons.mp h
    rw [writeAll, List.foldl_cons]
    exact (ih h).trans (get_set_ne _ _ hKey)

theorem get_writeAll {value : String × Val} {values : List (String × Val)} (hNodup : (values.map Prod.fst).Nodup)
    (hMem : value ∈ values) : get (writeAll py bindings values) (varKey value.1) = some (shown py value.2) := by
  induction values generalizing bindings with
  | nil => cases hMem
  | cons first values ih =>
    obtain ⟨hFirst, hNodup⟩ := List.nodup_cons.mp hNodup
    rw [writeAll, List.foldl_cons]
    rcases List.mem_cons.mp hMem with rfl | hMem
    · have hOther : ∀ other ∈ values, varKey value.1 ≠ varKey other.1 := by
        intro other hOther hKey
        exact hFirst (varKey_inj hKey ▸ List.mem_map_of_mem hOther)
      exact (get_writeAll_other hOther).trans (get_set_self _ _ _)
    · exact ih hNodup hMem

theorem names_of_extracts {fields : List ExtractField} {values : List (String × Val)}
    (h : Extracts py http fields body bindings values) :
    (values.map Prod.fst).Nodup ∧ ∀ name, http.saveBody = some name → ∀ value ∈ values, name ≠ value.1 := by
  obtain ⟨entries, doc, hEntries, -, hAll⟩ := h
  have hNames : values.map Prod.fst = entries.map Prod.fst := by
    clear hEntries
    induction hAll with
    | nil => rfl
    | cons hHead _ ih => rw [List.map_cons, List.map_cons, hHead.1, ih]
  refine ⟨hNames ▸ hEntries.distinct, ?_⟩
  rintro name hSave value hMem rfl
  exact hEntries.unsaved _ hSave (hNames ▸ List.mem_map_of_mem hMem)

theorem get_save_other {key : String} (h : ∀ name, http.saveBody = some name → key ≠ varKey name) :
    get (save http body bindings) key = get bindings key := by
  rw [save]
  split
  · rfl
  · rename_i name hSave
    exact get_set_ne _ _ (h name hSave)

theorem get_save {name : String} (h : http.saveBody = some name) : get (save http body bindings) (varKey name) = some body := by
  rw [save, h]
  exact get_set_self _ _ _

theorem unchanged_save_iff : Unchanged bindings (save http body bindings) ↔ Kept http body bindings := by
  constructor
  · intro h name hSave
    rw [← h name, get_save hSave]
  · intro h name
    by_cases hSave : http.saveBody = some name
    · rw [get_save hSave, h name hSave]
    · apply get_save_other
      rintro other hOther hKey
      obtain rfl := varKey_inj hKey
      exact hSave hOther

theorem populated_save (hFields : fieldsOf http = []) : Populated py http body bindings (save http body bindings) [] where
  fields := .inl ⟨hFields, rfl⟩
  saved _ hSave := get_save hSave
  extracted _ hMem := nomatch hMem
  others _ hKey _ := get_save_other hKey

theorem populated_write {values : List (String × Val)} (hFields : fieldsOf http ≠ [])
    (h : Extracts py http (fieldsOf http) body (save http body bindings) values) :
    Populated py http body bindings (writeAll py (save http body bindings) values) values where
  fields := .inr ⟨hFields, h⟩
  saved name hSave := by
    have hOther : ∀ value ∈ values, varKey name ≠ varKey value.1 :=
      fun value hMem hKey => (names_of_extracts h).2 name hSave value hMem (varKey_inj hKey)
    rw [get_writeAll_other hOther, get_save hSave]
  extracted value hMem := get_writeAll (names_of_extracts h).1 hMem
  others key hSaved hValues := by rw [get_writeAll_other hValues, get_save_other hSaved]

theorem extractBodyFields_eq : extractBodyFields py http body bindings =
    if fieldsOf http = [] then .ok bindings else extractFields py http (fieldsOf http) body bindings := by
  rw [extractBodyFields, fieldsOf]
  cases http.extractBody with
  | none => rfl
  | some fields => cases fields <;> rfl

theorem stored_clean_iff {status : Int} {bytes : List UInt8} (hAnswered : Answered (py.urlopen (sent http)) status bytes)
    (hStatus : ∀ expected, http.status = some expected → status = expected) (bindings : Option Bindings) :
    Clean py http bindings (received.stored py http bindings (py.decode bytes)) ↔
      ∀ before, bindings = some before → SafeBody py http (py.decode bytes) before := by
  have hUnique : ∀ {status' : Int} {bytes' : List UInt8}, Answered (py.urlopen (sent http)) status' bytes' → bytes' = bytes := by
    intro status' bytes' h
    generalize py.urlopen (sent http) = opened at hAnswered h
    cases hAnswered <;> cases h <;> rfl
  cases bindings with
  | none =>
    refine iff_of_true ⟨status, bytes, hAnswered, hStatus, ?_⟩ ?_
    · intro before hBefore
      cases hBefore
    · intro before hBefore
      cases hBefore
  | some before =>
    simp only [Option.some.injEq, forall_eq']
    rw [received.stored, extractBodyFields_eq]
    by_cases hFields : fieldsOf http = []
    · rw [if_pos hFields]
      refine iff_of_true ?_ (.inl hFields)
      refine ⟨status, bytes, hAnswered, hStatus, ?_⟩
      rintro before' hBefore
      obtain rfl := Option.some.inj hBefore
      exact ⟨_, [], rfl, populated_save hFields⟩
    · rw [if_neg hFields]
      rcases extractFields_cases py http (fieldsOf http) (py.decode bytes) (save http (py.decode bytes) before) with
        ⟨values, hOk, hExtracts⟩ | ⟨⟨e, hError⟩, hNot, hWhole⟩ | ⟨⟨r, hError, hOther⟩, hNot, hBreaks⟩
      · rw [hOk]
        refine iff_of_true ?_ (.inr (.inl ⟨values, hExtracts⟩))
        refine ⟨status, bytes, hAnswered, hStatus, ?_⟩
        rintro before' hBefore
        obtain rfl := Option.some.inj hBefore
        exact ⟨_, values, rfl, populated_write hFields hExtracts⟩
      · rw [hError]
        have hClean : Clean py http (some before) (some (save http (py.decode bytes) before), .error (.selector e)) ↔
            Unchanged before (save http (py.decode bytes) before) := by
          simp [Clean]
        rw [hClean, unchanged_save_iff]
        constructor
        · exact fun hKept => .inr (.inr ⟨hKept, hWhole⟩)
        · rintro (hNil | hExtracts | ⟨hKept, -⟩)
          · exact absurd hNil hFields
          · exact absurd hExtracts hNot
          · exact hKept
      · rw [hError]
        have hNotClean : ¬ Clean py http (some before) (some (save http (py.decode bytes) before), .error r) := by
          cases r with
          | selector e => exact absurd rfl (hOther e)
          | _ => exact id
        refine iff_of_false hNotClean ?_
        rintro (hNil | hExtracts | ⟨-, hWhole⟩)
        · exact hFields hNil
        · exact hNot hExtracts
        · exact hWhole hBreaks

theorem received_clean_iff {status : Int} {bytes : List UInt8} (hAnswered : Answered (py.urlopen (sent http)) status bytes)
    (bindings : Option Bindings) :
    Clean py http bindings (received py http bindings status (py.decode bytes)) ↔
      (∃ expected, http.status = some expected ∧ status ≠ expected) ∨
        ∀ before, bindings = some before → SafeBody py http (py.decode bytes) before := by
  cases hExpected : http.status with
  | none =>
    have hStatus : ∀ expected, http.status = some expected → status = expected := by
      intro expected h
      rw [hExpected] at h
      cases h
    have hStored : received py http bindings status (py.decode bytes) =
        received.stored py http bindings (py.decode bytes) := by
      rw [received, hExpected]
    rw [hStored, stored_clean_iff hAnswered hStatus]
    simp
  | some expected =>
    by_cases hEq : status = expected
    · have hStatus : ∀ other, http.status = some other → status = other := by
        intro other h
        rw [hExpected] at h
        rw [hEq, Option.some.inj h]
      have hStored : received py http bindings status (py.decode bytes) =
          received.stored py http bindings (py.decode bytes) := by
        rw [received, hExpected]
        exact if_neg (not_not.mpr hEq)
      rw [hStored, stored_clean_iff hAnswered hStatus]
      simp [hEq]
    · have hWrong : received py http bindings status (py.decode bytes) =
          (bindings, .error (.selector (.wrongStatus expected status))) := by
        rw [received, hExpected]
        exact if_pos hEq
      rw [hWrong]
      refine iff_of_true ?_ (.inl ⟨expected, rfl, hEq⟩)
      intro before hBefore
      exact ⟨before, hBefore, fun _ => rfl⟩

theorem clean_unchanged (py : Python) (http : HttpRequest) (bindings : Option Bindings) (e : HttpError) :
    Clean py http bindings (bindings, .error (.selector e)) := fun before hBefore => ⟨before, hBefore, fun _ => rfl⟩

theorem doHttp_clean_iff (py : Python) (http : HttpRequest) (bindings : Option Bindings) :
    Clean py http bindings (doHttp py http bindings) ↔ Safe py http bindings := by
  rw [doHttp, Safe]
  cases hAllowed : allowed http.url with
  | false => exact iff_of_true (clean_unchanged py http bindings _) (.inl rfl)
  | true =>
    simp only [Bool.not_true, Bool.false_eq_true, if_false, Bool.true_eq_false, false_or]
    have hAnswer : ∀ {status bytes}, Answered (py.urlopen (sent http)) status bytes →
        (¬ Refused (py.urlopen (sent http))) ∧ ∀ {status' bytes'}, Answered (py.urlopen (sent http)) status' bytes' →
          status' = status ∧ bytes' = bytes := by
      intro status bytes h
      generalize py.urlopen (sent http) = opened at h
      cases h with
      | response => exact ⟨(fun h => nomatch h), fun h => by cases h; exact ⟨rfl, rfl⟩⟩
      | httpError => exact ⟨(fun h => nomatch h), fun h => by cases h; exact ⟨rfl, rfl⟩⟩
    have hRead : ∀ {status bytes}, Answered (py.urlopen (sent http)) status bytes →
        (Clean py http bindings (received py http bindings status (py.decode bytes)) ↔
          Refused (py.urlopen (sent http)) ∨ ∃ status bytes, Answered (py.urlopen (sent http)) status bytes ∧
            ((∃ expected, http.status = some expected ∧ status ≠ expected) ∨
              ∀ before, bindings = some before → SafeBody py http (py.decode bytes) before)) := by
      intro status bytes hAnswered
      obtain ⟨hNot, hOnly⟩ := hAnswer hAnswered
      rw [received_clean_iff hAnswered]
      constructor
      · exact fun h => .inr ⟨status, bytes, hAnswered, h⟩
      · rintro (hRefused | ⟨status', bytes', hAnswered', h⟩)
        · exact absurd hRefused hNot
        · obtain ⟨rfl, rfl⟩ := hOnly hAnswered'
          exact h
    have hRaised : ∀ {f : Failure}, (¬ Refused (py.urlopen (sent http))) →
        (∀ status bytes, ¬ Answered (py.urlopen (sent http)) status bytes) →
        (Clean py http bindings (bindings, .error (.transport f)) ↔
          Refused (py.urlopen (sent http)) ∨ ∃ status bytes, Answered (py.urlopen (sent http)) status bytes ∧
            ((∃ expected, http.status = some expected ∧ status ≠ expected) ∨
              ∀ before, bindings = some before → SafeBody py http (py.decode bytes) before)) := by
      intro f hNot hNone
      refine iff_of_false id ?_
      rintro (hRefused | ⟨status, bytes, hAnswered, -⟩)
      · exact hNot hRefused
      · exact hNone status bytes hAnswered
    cases hOpened : py.urlopen (sent http) with
    | response status read =>
      rw [hOpened] at hRead hRaised
      cases read with
      | ok bytes => exact hRead (.response status bytes)
      | error f =>
        cases f with
        | url reason => exact iff_of_true (clean_unchanged py http bindings _) (.inl (.reading status reason))
        | _ => exact hRaised (fun h => nomatch h) (fun _ _ h => nomatch h)
    | httpError code read =>
      rw [hOpened] at hRead hRaised
      cases read with
      | ok bytes => exact hRead (.httpError code bytes)
      | error f => cases f <;> exact hRaised (fun h => nomatch h) (fun _ _ h => nomatch h)
    | raised f =>
      rw [hOpened] at hRaised
      cases f with
      | url reason => exact iff_of_true (clean_unchanged py http bindings _) (.inl (.raised reason))
      | _ => exact hRaised (fun h => nomatch h) (fun _ _ h => nomatch h)

/-- The texts of the grammar are those with an overlong index and those that are parsed. -/
theorem grammar_parsed_iff (path : List Char) :
    ((∃ segs, parsePath path = .ok segs) ↔ ∃ segments, Grammar path segments) ↔
      ¬ ((∃ segments, Grammar path segments) ∧ Overlong path) := by
  have hGrammar : (∃ segs, parsePath path = .ok segs) → ∃ segments, Grammar path segments := by
    rintro ⟨segs, h⟩
    obtain ⟨segments, hGrammar, -⟩ := parsePath_ok_iff.mp h
    exact ⟨segments, hGrammar⟩
  constructor
  · rintro h ⟨hSome, hLong⟩
    obtain ⟨segs, hSegs⟩ := h.mpr hSome
    obtain ⟨n, hInt⟩ := parsePath_int_iff.mpr hLong
    rw [hSegs] at hInt
    cases hInt
  · intro hNot
    refine ⟨hGrammar, ?_⟩
    rintro ⟨segments, hPath⟩
    have hShort : ¬ Overlong path := fun hLong => hNot ⟨⟨segments, hPath⟩, hLong⟩
    exact ⟨_, parsePath_ok_iff.mpr ⟨segments, hPath, short_of_not_overlong hPath hShort, rfl⟩⟩

/-- The path of every template, the step on every request: the parser takes the grammar, the tokens stay in their segments,
and the step fails cleanly, each exactly where no index is too long for `int()`, no other exception comes from the
transport and no body is saved before a field fails. -/
theorem http_step_iff (py : Python) (http : HttpRequest) (bindings : Option Bindings) (path : List Char) :
    (((∃ segs, parsePath path = .ok segs) ↔ ∃ segments, Grammar path segments) ↔
        ¬ ((∃ segments, Grammar path segments) ∧ Overlong path)) ∧
      (∀ segs, parsePath path = .ok segs → parsePath (printPath segs) = .ok segs) ∧
      (∀ template var before before' text text' segs segs', substitutePath template var before = .ok text →
        substitutePath template var before' = .ok text' → parsePath text = .ok segs → parsePath text' = .ok segs' →
        ∃ slots, pieces template = laid 0 slots ∧ Alike slots segs segs') ∧
      (Clean py http bindings (doHttp py http bindings) ↔ Safe py http bindings) := by
  refine ⟨grammar_parsed_iff path, fun segs h => parsePath_print h, ?_, doHttp_clean_iff py http bindings⟩
  intro template var before before' text text' segs segs' hText hText' hSegs hSegs'
  obtain ⟨hOne, rfl⟩ := substitutePath_ok_iff.mp hText
  obtain ⟨hOne', rfl⟩ := substitutePath_ok_iff.mp hText'
  exact parsePath_alike hOne hOne' hSegs hSegs'

end Clean

/-! ## A body that is no JSON -/

/-- A server that answers with a page. -/
def pageServer : Python where
  urlopen _ := .response 200 (.ok [60, 112, 62])
  decode bytes := String.ofList (bytes.map fun b => Char.ofNat b.toNat)
  loads _ := .invalid "Expecting value: line 1 column 1 (char 0)"
  dumps _ := ""
  str _ := ""

def tokenRequest : HttpRequest where
  method := "GET"
  url := "https://api.test/token"
  headers := none
  body := none
  status := none
  saveBody := some "raw"
  extractBody := some [⟨"id", "id"⟩]

theorem token_doHttp : doHttp pageServer tokenRequest (some [("vars.raw", "[]")]) =
    (some [("vars.raw", "<p>")], .error (.selector (.notJson "Expecting value: line 1 column 1 (char 0)"))) := rfl

/-- The step fails, with the page in the variable that held another body. -/
theorem body_saved_on_failure :
    ¬ Clean pageServer tokenRequest (some [("vars.raw", "[]")])
      (doHttp pageServer tokenRequest (some [("vars.raw", "[]")])) := by
  rw [token_doHttp]
  intro hClean
  obtain ⟨after, hAfter, hUnchanged⟩ := hClean _ rfl
  obtain rfl := Option.some.inj hAfter
  exact absurd (hUnchanged "raw") (by decide)

end Bajutsu.Orchestrator.Http
