import Bajutsu.Drivers.Selector
import Bajutsu.Lib.JsonValue

/-!
# Golden element trees

`compare_golden` compares the elements a golden file pins with the ones of a snapshot, found by identifier. What a file
holds is any JSON: reading it back checks the fields it has and not the kinds of their values.
-/

namespace Bajutsu.Evidence.Golden
open PyValue Drivers

/-- The Python exceptions reading a golden or comparing with it may raise. -/
inductive Raised where
  | attributeError
  | typeError
  | valueError (message : String)
  deriving DecidableEq

/-- An element of a golden: its texts and traits are whatever the file has there. -/
structure GoldenElement where
  identifier : Option String
  label : Val
  traits : Val
  value : Val
  frame : Val × Val × Val × Val

structure FieldMismatch where
  controlId : String
  field : String
  expected : Val
  actual : Val
  deriving DecidableEq

structure GoldenResult where
  mismatches : List FieldMismatch := []
  missing : List String := []
  frameFailures : List String := []
  deriving DecidableEq

def GoldenResult.ok (result : GoldenResult) : Bool :=
  result.mismatches.isEmpty && result.missing.isEmpty && result.frameFailures.isEmpty

/-- The order of a list of numbers, and `repr`. -/
structure Builtins where
  sortNumbers : List Val → List Val
  repr : Val → String

def optStr : Option String → Val
  | none => .null
  | some s => .str s

/-! ## The built-in `set` and `sorted` of a value -/

/-- The items of an iterable. -/
def items : Val → Except Raised (List Val)
  | .list xs | .tuple xs => .ok xs
  | .str s => .ok (s.toList.map fun c => .str c.toString)
  | .dict kvs => .ok (kvs.map fun item => .str item.1)
  | _ => .error .typeError

def hashable : Val → Bool
  | .list _ | .dict _ => false
  | _ => true

def isStr : Val → Bool
  | .str _ => true
  | _ => false

def isNumber : Val → Bool
  | .bool _ | .int _ | .float _ => true
  | _ => false

def text : Val → String
  | .str s => s
  | _ => ""

/-- `set(v)`, as the items it is made of. -/
def setOf (v : Val) : Except Raised (List Val) := do
  let xs ← items v
  if xs.all hashable then .ok xs else .error .typeError

def sortedStr (texts : List String) : List String := texts.insertionSort (· ≤ ·)

variable (builtins : Builtins)

/-- `sorted(v)`: a single item is compared with nothing. -/
def sorted (v : Val) : Except Raised (List Val) := do
  let xs ← items v
  if xs.length ≤ 1 then .ok xs
  else if xs.all isStr then .ok ((sortedStr (xs.map text)).map .str)
  else if xs.all isNumber then .ok (builtins.sortNumbers xs)
  else .error .typeError

/-- Whether the set of the items is the set of the traits. -/
def sameSet (xs : List Val) (traits : List String) : Bool :=
  (xs.all fun x => traits.any fun t => x = .str t) && traits.all fun t => xs.any fun x => x = .str t

/-! ## Comparing -/

section Compare

variable {N : Type} [Add N] [Zero N] [LE N] [DecidableLE N]

def textMismatch (controlId field : String) (expected : Val) (actual : Option String) : List FieldMismatch :=
  if expected = optStr actual then [] else [⟨controlId, field, expected, optStr actual⟩]

def traitsMismatch (controlId : String) (expected : Val) (actual : List String) : Except Raised (List FieldMismatch) := do
  let xs ← setOf expected
  if sameSet xs actual then .ok []
  else
    let sortedExpected ← sorted builtins expected
    .ok [⟨controlId, "traits", .tuple sortedExpected, .tuple ((sortedStr actual).map .str)⟩]

/-- An empty identifier is as good as none. -/
def GoldenElement.controlId (el : GoldenElement) : String :=
  match el.identifier with
  | none => "<unknown>"
  | some s => if s = "" then "<unknown>" else s

def compareElement (expected : GoldenElement) (actual : Element N) : Except Raised (List FieldMismatch) := do
  let controlId := expected.controlId
  let traits ← traitsMismatch builtins controlId expected.traits actual.traits
  .ok (textMismatch controlId "identifier" (optStr expected.identifier) actual.identifier ++
    textMismatch controlId "label" expected.label actual.label ++
    textMismatch controlId "value" expected.value actual.value ++ traits)

def frameIsSane (frame screen : Frame N) : Bool :=
  let (_, _, w, h) := frame
  if w ≤ 0 ∨ h ≤ 0 then false else contains screen frame

def byId (elements : List (Element N)) : List (Option String × Element N) :=
  dictOf (elements.map fun el => (el.identifier, el))

def compareEach (actualById : List (Option String × Element N)) (screen : Frame N) :
    List (String × GoldenElement) → GoldenResult → Except Raised GoldenResult
  | [], result => .ok result
  | (controlId, expected) :: rest, result =>
    match get actualById (some controlId) with
    | none => compareEach actualById screen rest { result with missing := result.missing ++ [controlId] }
    | some actual => do
      let mismatches ← compareElement builtins expected actual
      compareEach actualById screen rest { result with
        mismatches := result.mismatches ++ mismatches
        frameFailures :=
          if frameIsSane actual.frame screen then result.frameFailures else result.frameFailures ++ [controlId] }

def compareGolden (golden : List (String × GoldenElement)) (actual : List (Element N)) (screen : Frame N) :
    Except Raised GoldenResult :=
  compareEach builtins (byId actual) screen golden {}

end Compare

/-! ## The file -/

def elementFields : List String := ["frame", "identifier", "label", "traits", "value"]

/-- The order a missing field is reported in is theirs, which is `sorted`. -/
def missingFields (data : List (String × Val)) : List String :=
  elementFields.filter fun name => (get data name).isNone

def fieldOf (data : List (String × Val)) (name : String) : Val := (get data name).getD .null

def validateElement (data : Val) (controlId : String) : Except Raised GoldenElement :=
  match data with
  | .dict data =>
    if missingFields data ≠ [] then
      .error (.valueError ("golden entry '" ++ controlId ++ "' missing field(s): " ++
        ", ".intercalate (missingFields data)))
    else
      match fieldOf data "frame" with
      | .list [x, y, w, h] =>
        if fieldOf data "identifier" = .str controlId then
          .ok ⟨some controlId, fieldOf data "label", fieldOf data "traits", fieldOf data "value", x, y, w, h⟩
        else .error (.valueError ("golden key '" ++ controlId ++ "' does not match embedded identifier " ++
          builtins.repr (fieldOf data "identifier")))
      | frame => .error (.valueError ("golden entry '" ++ controlId ++ "' frame must be a 4-element list, got " ++
          builtins.repr frame))
  | _ => .error .attributeError

/-- `load_golden` of what the file holds. -/
def loadGolden (raw : Val) : Except Raised (List (String × GoldenElement)) :=
  match raw with
  | .dict entries => entries.mapM fun entry => do
    let el ← validateElement builtins entry.2 entry.1
    .ok (entry.1, el)
  | _ => .error .attributeError

section Save

variable {N : Type} (number : N → Val)

/-- What is saved of an element: every field but `nativeZ`. -/
def savedFields (el : Element N) : List (String × Val) :=
  [("identifier", optStr el.identifier), ("label", optStr el.label), ("traits", .list (el.traits.map .str)),
    ("value", optStr el.value),
    ("frame", .tuple [number el.frame.1, number el.frame.2.1, number el.frame.2.2.1, number el.frame.2.2.2])] ++
  if el.crossOriginFrame then [("crossOriginFrame", .bool true)] else []

/-- The dictionary `save_golden` writes. -/
def savedGolden (elements : List (Element N)) (ids : List String) : List (String × Val) :=
  dictOf (ids.filterMap fun cid => (get (byId elements) (some cid)).map fun el => (cid, .dict (savedFields number el)))

/-- An element as a golden holds it. -/
def pinned (el : Element N) : GoldenElement :=
  ⟨el.identifier, optStr el.label, .list (el.traits.map .str), optStr el.value, number el.frame.1, number el.frame.2.1,
    number el.frame.2.2.1, number el.frame.2.2.2⟩

end Save

end Bajutsu.Evidence.Golden
