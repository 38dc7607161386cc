import Bajutsu.Assertions.EvaluateRequests
import Bajutsu.Evidence.Golden
import Bajutsu.Evidence.Visual

/-!
# The other kinds of assertions

Every kind has an evaluator of its own, which reads what its kind is about: the snapshot, the timeline, a text that was
read before, or a file. What an evaluator lets through ends the evaluation of the whole block.
-/

namespace Bajutsu.Assertions

open PyValue (Val)
open Drivers

/-! ## What the models accept -/

inductive TextOp where
  | equals (expected : String)
  | contains (expected : String)
  | «matches» (pattern : String)

structure TextMatch where
  sel : Selector
  op : TextOp

inductive AttributeOp where
  | text (op : TextOp)
  | absent

structure AttributeMatch where
  sel : Selector
  name : String
  op : AttributeOp

inductive CountOp where
  | equals (count : Int)
  | atLeast (count : Int)
  | atMost (count : Int)

structure CountMatch where
  sel : Selector
  op : CountOp

inductive ClipboardMatch where
  | equals (expected : String)
  | «matches» (pattern : String)

structure EventMatch extends EndpointMatch where
  count : Option CountOp

structure ResponseSchemaMatch where
  request : RequestMatch
  schemaPath : String

/-- A region of an image: a rectangle, none where a coordinate is infinite or not a number, or an element's frame. -/
inductive Region where
  | rectangle (rectangle : Option Evidence.Visual.ExcludeRegion)
  | selector (sel : Selector)

structure VisualMatch where
  baseline : String
  element : Option Selector
  compare : Option String
  threshold : ℚ
  /-- Whether `colorTolerance` or `antialiasing` is set. -/
  tuned : Bool
  colorTolerance : ℚ
  antialiasing : Bool
  exclude : List Region

inductive OtherKind where
  | «exists» (sel : Selector) (negate : Bool)
  | value (m : TextMatch)
  | label (m : TextMatch)
  | count (m : CountMatch)
  | enabled (sel : Selector)
  | disabled (sel : Selector)
  | selected (sel : Selector)
  | event (m : EventMatch)
  | responseSchema (m : ResponseSchemaMatch)
  | visual (m : VisualMatch)
  | clipboard (m : ClipboardMatch)
  | attribute (m : AttributeMatch)
  | golden (path : String)

def kindName : Assertion OtherKind → String
  | .request _ => "request"
  | .requestSequence _ => "requestSequence"
  | .other (.exists _ _) => "exists"
  | .other (.value _) => "value"
  | .other (.label _) => "label"
  | .other (.count _) => "count"
  | .other (.enabled _) => "enabled"
  | .other (.disabled _) => "disabled"
  | .other (.selected _) => "selected"
  | .other (.event _) => "event"
  | .other (.responseSchema _) => "responseSchema"
  | .other (.visual _) => "visual"
  | .other (.clipboard _) => "clipboard"
  | .other (.attribute _) => "attribute"
  | .other (.golden _) => "golden"

/-! ## What an evaluation is given -/

/-- A file as it is read: `read_text` raises `OSError` or `UnicodeDecodeError`, or gives its text. -/
inductive FileText where
  | unreadable
  | undecodable
  | text (content : String)

/-- Where a path leads: `is_file` raises, or finds no file, or one. -/
inductive Lookup (α : Type) where
  | refused
  | missing
  | file (content : α)

/-- Where a path leads that is confined to a directory: `resolve` raises, or it leads out, or somewhere inside. -/
inductive Confined (α : Type) where
  | refused
  | escapes
  | inside (found : Lookup α)

/-- An image that `Image.open` opens: its size, and its pixels unless converting them raises. -/
structure ImageFile where
  size : Nat × Nat
  pixels : Option Evidence.Visual.Image

structure AttributeRead where
  value : Option String
  error : Option String

structure GoldenContext where
  goldens : String → Confined FileText
  screen : Option (Frame ℚ)

/-- An image file that cannot be opened is none. -/
structure VisualContext where
  screenshot : Option ImageFile
  baselines : String → Lookup (Option ImageFile)
  viewport : Option (ℚ × ℚ)
  defaultCompare : String

structure EvalContext where
  visual : Option VisualContext
  /-- The directory of the schemas. -/
  schema : Option (String → Confined FileText)
  golden : Option GoldenContext
  clipboard : Option String
  attributes : String × String → Option AttributeRead

/-- What `jsonschema.validate` does. -/
inductive Validation where
  | valid
  | validationError (message : String)
  | schemaError (message : String)
  | raised (text : String)

structure Pillow where
  /-- Cropping an image to a box and saving it for a baseline of a name, none where either raises. -/
  crop : ImageFile → Evidence.Visual.Box → String → Option ImageFile
  /-- Whether a difference image can be saved for a baseline of a name. -/
  saves : String → Bool

/-- Everything from outside that evaluating reads; an extra that is not installed is none. -/
structure Environment extends Runtime where
  /-- Whether `json.loads` raises `RecursionError` at a text that it does not parse. -/
  deep : String → Bool
  fnmatchcase : String → String → Bool
  selStr : Selector → String
  selKey : Selector → String
  selRepr : Selector → String
  repr : String → String
  reprTraits : List String → String
  golden : Evidence.Golden.Builtins
  mismatchStr : Evidence.Golden.FieldMismatch → String
  visual : Evidence.Visual.Builtins
  comparePixelmatch : VisualMatch → Evidence.Visual.Image → Evidence.Visual.Image → Evidence.Visual.CompareResult
  jsonschema : Option (Val → Val → Validation)
  pillow : Option Pillow

section Kinds

variable (env : Environment) (elements : List (Element ℚ))

/-! ## The snapshot -/

/-- `find_all` raises nothing but what a pattern does. -/
def uncaught : ResolveError → Failure
  | .invalidPattern pattern => .badPattern pattern
  | error => .badPattern (error.message env.selRepr)

def findElements (sel : Selector) : Except Failure (List (Element ℚ)) :=
  (findAll env.fnmatchcase env.compile elements sel).mapError (uncaught env)

/-- The element, or why there is none: a `SelectorError` is caught. -/
def resolveOne (sel : Selector) : Except Failure (Except String (Element ℚ)) :=
  match resolveUnique env.fnmatchcase env.compile elements sel with
  | .ok el => .ok (.ok el)
  | .error (.invalidPattern pattern) => .error (.badPattern pattern)
  | .error error => .ok (.error (error.message env.selRepr))

def evalExists (sel : Selector) (negate : Bool) : Except Failure AssertionResult := do
  let found : Bool := !(← findElements env elements sel).isEmpty
  let want := if negate then "absent" else "present"
  let ok : Bool := found != negate
  return ⟨ok, "exists", want ++ ": " ++ env.selStr sel,
    if ok then "" else "expected " ++ want ++ " but was " ++ if found then "present" else "absent"⟩

def TextOp.name : TextOp → String
  | .equals _ => "equals"
  | .contains _ => "contains"
  | .matches _ => "matches"

def TextOp.expected : TextOp → String
  | .equals expected | .contains expected | .matches expected => expected

def textCmp (actual : Option String) (op : TextOp) : Except Failure Bool :=
  match actual, op with
  | none, _ => .ok false
  | some actual, .equals expected => .ok (actual = expected)
  | some actual, .contains expected => .ok (decide (expected.toList <:+: actual.toList))
  | some actual, .matches pattern => do return (← compile env.toRuntime pattern) actual

def reprOpt : Option String → String
  | none => "None"
  | some text => env.repr text

def opStr (op : TextOp) : String := op.name ++ "=" ++ env.repr op.expected

/-- `value` and `label`, which differ in the field they read. -/
def evalText (kind : String) (field : Element ℚ → Option String) (m : TextMatch) : Except Failure AssertionResult := do
  match ← resolveOne env elements m.sel with
  | .error reason => return ⟨false, kind, kind ++ ": " ++ env.selStr m.sel, reason⟩
  | .ok el =>
    let actual := field el
    let ok ← textCmp env actual m.op
    return ⟨ok, kind, kind ++ " " ++ opStr env m.op ++ ": " ++ env.selStr m.sel,
      if ok then "" else "expected " ++ opStr env m.op ++ " but actual=" ++ reprOpt env actual⟩

def evalAttribute (read : Option AttributeRead) (m : AttributeMatch) : Except Failure AssertionResult :=
  let detailBase := "attribute " ++ m.name ++ ": " ++ env.selStr m.sel
  match read with
  | none => .ok ⟨false, "attribute", detailBase, "attribute not read: the caller supplied no EvalContext.attributes"⟩
  | some ⟨_, some error⟩ => .ok ⟨false, "attribute", detailBase, error⟩
  | some ⟨actual, none⟩ =>
    match m.op with
    | .absent =>
      let ok : Bool := actual.isNone
      .ok ⟨ok, "attribute", "attribute " ++ m.name ++ " absent: " ++ env.selStr m.sel,
        if ok then "" else "expected attribute " ++ env.repr m.name ++ " absent but actual=" ++ reprOpt env actual⟩
    | .text op => do
      let ok ← textCmp env actual op
      return ⟨ok, "attribute", "attribute " ++ m.name ++ " " ++ opStr env op ++ ": " ++ env.selStr m.sel,
        if ok then ""
        else if actual.isNone then
          "expected " ++ opStr env op ++ " but attribute " ++ env.repr m.name ++ " is absent"
        else "expected " ++ opStr env op ++ " but actual=" ++ reprOpt env actual⟩

def CountOp.holds (n : Nat) : CountOp → Bool
  | .equals count => (n : Int) = count
  | .atLeast count => count ≤ n
  | .atMost count => (n : Int) ≤ count

def CountOp.str : CountOp → String
  | .equals count => "equals=" ++ toString count
  | .atLeast count => "atLeast=" ++ toString count
  | .atMost count => "atMost=" ++ toString count

def evalCount (m : CountMatch) : Except Failure AssertionResult := do
  let n := (← findElements env elements m.sel).length
  let ok := m.op.holds n
  return ⟨ok, "count", "count " ++ m.op.str ++ ": " ++ env.selStr m.sel,
    if ok then "" else "expected count " ++ m.op.str ++ " but n=" ++ toString n⟩

/-- `enabled`, `disabled` and `selected`, which differ in what they ask of the traits. -/
def evalState (kind : String) (holds : List String → Bool) (sel : Selector) : Except Failure AssertionResult := do
  match ← resolveOne env elements sel with
  | .error reason => return ⟨false, kind, kind ++ ": " ++ env.selStr sel, reason⟩
  | .ok el =>
    return ⟨holds el.traits, kind, kind ++ ": " ++ env.selStr sel,
      if holds el.traits then "" else "not " ++ kind ++ ": traits=" ++ env.reprTraits el.traits⟩

/-! ## The timeline -/

section Timeline

variable (exchanges : List NetworkExchange)

def CountOp.label : CountOp → String
  | .equals count => "==" ++ toString count
  | .atLeast count => ">=" ++ toString count
  | .atMost count => "<=" ++ toString count

def countSatisfied (n : Nat) (count : Option CountOp) : Bool :=
  match count with
  | none => decide (1 ≤ n)
  | some count => count.holds n

def eventLabel (m : EventMatch) : String :=
  " ".intercalate <| List.flatten
    [m.method.toList.map env.upper,
     m.url.toList,
     m.urlMatches.toList.map ("url~" ++ ·),
     m.path.toList,
     m.pathMatches.toList.map ("~" ++ ·),
     m.query.toList.map fun query =>
       dictLabel env.toRuntime "query" (.dict (query.map fun item => (item.1, item.2.toVal))),
     m.body.toList.map fun body => dictLabel env.toRuntime "body" (.dict (BodyMatcher.itemsToVal body)),
     m.count.toList.map fun count => "count" ++ count.label]

def EndpointMatch.endpointIsEmpty (m : EndpointMatch) : Bool :=
  m.method.isNone && m.url.isNone && m.urlMatches.isNone && m.path.isNone && m.pathMatches.isNone

/-- The exchanges that an event may be one of, which are all of them where it names no endpoint. -/
def eventCandidates (m : EventMatch) : Except Failure (List NetworkExchange) :=
  if m.endpointIsEmpty then .ok exchanges
  else exchanges.filterM fun ex => matchRequest env.toRuntime ex (endpoint m.toEndpointMatch)

/-- The candidates that the dictionaries hold of. -/
def eventMatches (m : EventMatch) (candidates : List NetworkExchange) : Except Failure (List NetworkExchange) :=
  if m.query.isSome || m.body.isSome then
    candidates.filterM fun ex => do return (← dictMismatch env.toRuntime ex m.query m.body).isNone
  else .ok candidates

def eventHint (m : EventMatch) : Except Failure (Option String) :=
  match m.count with
  | none => dictionaryHint env.toRuntime exchanges m.toEndpointMatch
  | some _ => .ok none

def evalEvent (m : EventMatch) : Except Failure AssertionResult := do
  let candidates ← eventMatches env m (← eventCandidates env exchanges m)
  let n := candidates.length
  let detail := "event " ++ eventLabel env m
  let want := match m.count with | some count => "count" ++ count.label | none => "at least one"
  if countSatisfied n m.count then return ⟨true, "event", detail, ""⟩
  else
    return ⟨false, "event", detail, (← eventHint env exchanges m).getD ("expected " ++ want ++ ", matched " ++
      toString n ++ " (observed " ++ toString exchanges.length ++ " exchanges)")⟩

/-- The first exchange that a request accepts. -/
def firstMatch (req : RequestMatch) : List NetworkExchange → Except Failure (Option NetworkExchange)
  | [] => .ok none
  | ex :: rest => do if ← matchRequest env.toRuntime ex req then return some ex else firstMatch req rest

/-- `json.loads`, where `ValueError` is caught. -/
def loadsOr (text : String) : Except Failure (Option Val) :=
  match env.loads text with
  | some value => .ok (some value)
  | none => if env.deep text then .error (.unreadable text) else .ok none

/-- The parsed schema, or why there is none. -/
def loadSchema (schemas : String → Confined FileText) (path : String) : Except Failure (Except String Val) :=
  match schemas path with
  | .refused | .inside .refused => .error (.unreadable path)
  | .escapes => .ok (.error ("schema path escapes the schemas dir: " ++ path))
  | .inside .missing => .ok (.error ("schema not found: " ++ path))
  | .inside (.file .unreadable) | .inside (.file .undecodable) => .ok (.error "could not read schema")
  | .inside (.file (.text content)) => do
    match ← loadsOr env content with
    | some schema => return .ok schema
    | none => return .error "could not read schema"

def validateInstance (value schema : Val) (detail : String) : AssertionResult :=
  match env.jsonschema with
  | none => ⟨false, "responseSchema", detail, "responseSchema needs the 'schema' extra (jsonschema)"⟩
  | some validate =>
    match validate value schema with
    | .valid => ⟨true, "responseSchema", detail, ""⟩
    | .validationError message => ⟨false, "responseSchema", detail, "schema validation failed: " ++ message⟩
    | .schemaError message => ⟨false, "responseSchema", detail, "invalid schema: " ++ message⟩
    | .raised text => ⟨false, "responseSchema", detail, "schema error: " ++ text⟩

def evalResponseSchema (m : ResponseSchemaMatch) (ctx : Option (String → Confined FileText)) :
    Except Failure AssertionResult :=
  let detail := "responseSchema " ++ requestLabel env.toRuntime m.request true ++ " ~ " ++ m.schemaPath
  let failed (reason : String) : AssertionResult := ⟨false, "responseSchema", detail, reason⟩
  match ctx with
  | none => .ok (failed "no schema context provided")
  | some schemas => do
    match ← firstMatch env m.request exchanges with
    | none => return failed (noMatching exchanges)
    | some ex =>
      match ← loadSchema env schemas m.schemaPath with
      | .error reason => return failed reason
      | .ok schema =>
        match ex.responseBody with
        | none => return failed "response has no body"
        | some body =>
          match ← loadsOr env body with
          | none => return failed "response body is not JSON"
          | some value => return validateInstance env value schema detail

end Timeline

/-! ## The clipboard -/

def ClipboardMatch.holds (text : String) : ClipboardMatch → Except Failure Bool
  | .equals expected => .ok (text = expected)
  | .matches pattern => do return (← compile env.toRuntime pattern) text

def evalClipboard (clipboard : Option String) (m : ClipboardMatch) : Except Failure AssertionResult :=
  let op := match m with
    | .equals expected => "equals=" ++ env.repr expected
    | .matches pattern => "matches=" ++ env.repr pattern
  match clipboard with
  | none => .ok ⟨false, "clipboard", "clipboard " ++ op, "no clipboard read (device control unavailable)"⟩
  | some text => do
    let ok ← m.holds env text
    return ⟨ok, "clipboard", "clipboard " ++ op,
      if ok then "" else "clipboard was " ++ env.repr text ++ ", expected " ++ op⟩

/-! ## Goldens -/

/-- The width and the height of what the elements cover. -/
def screenSizeFromElements : ℚ × ℚ :=
  (((elements.map fun el => el.frame.1 + el.frame.2.2.1).max?).getD 0,
    ((elements.map fun el => el.frame.2.1 + el.frame.2.2.2).max?).getD 0)

def goldenParts (result : Evidence.Golden.GoldenResult) : List String :=
  (if result.mismatches = [] then [] else ["; ".intercalate (result.mismatches.map env.mismatchStr)]) ++
  (if result.missing = [] then [] else ["missing: " ++ ", ".intercalate result.missing]) ++
  if result.frameFailures = [] then [] else ["frame failures: " ++ ", ".intercalate result.frameFailures]

/-- `load_golden` of a file, and the comparison. -/
def compareFile (screen : Frame ℚ) (file : FileText) : Except Failure Evidence.Golden.GoldenResult :=
  match file with
  | .text content =>
    match env.loads content with
    | some raw =>
      match Evidence.Golden.loadGolden env.golden raw >>= fun golden => Evidence.Golden.compareGolden env.golden golden elements screen with
      | .ok result => .ok result
      | .error _ => .error (.unreadable content)
    | none => .error (.unreadable content)
  | _ => .error (.unreadable "")

def evalGolden (path : String) (ctx : Option GoldenContext) : Except Failure AssertionResult :=
  let detail := "golden ≈ " ++ path
  match ctx with
  | none => .ok ⟨false, "golden", detail, "no golden context provided"⟩
  | some ctx =>
    match ctx.goldens path with
    | .refused | .inside .refused => .error (.unreadable path)
    | .escapes => .ok ⟨false, "golden", detail, "golden path escapes the goldens dir: " ++ path⟩
    | .inside .missing => .ok ⟨false, "golden", detail, "golden not found: " ++ path⟩
    | .inside (.file file) => do
      let (sw, sh) := screenSizeFromElements elements
      let result ← compareFile env elements (ctx.screen.getD (0, 0, sw, sh)) file
      return if result.ok then ⟨true, "golden", detail, ""⟩
        else ⟨false, "golden", detail, "; ".intercalate (goldenParts env result)⟩

end Kinds

end Bajutsu.Assertions
