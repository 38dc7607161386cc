import Bajutsu.Lib.Occurrence
import Bajutsu.Scenarios.EvalOps
import Bajutsu.Scenarios.Interp

/-!
# The `eval` step

A value goes through a fixed list of operations into `vars.*`, under caps on its size. After the step, what it wrote is
marked secret and registered for masking when the written step reads a secret, `count` being the one exception.
-/

namespace Bajutsu.Orchestrator.EvalStep

open PyValue Scenarios

/-! ## The operations -/

def maxChars : Nat := 1048576

def maxItems : Nat := 10000

inductive Value where
  | str (text : String)
  | list (items : List String)
  deriving DecidableEq

abbrev Result (α : Type) := Except Raised α

def failAt {α : Type} (place : Where) (why : String) : Result α := .error (.evalOp (.fail place why))

/-- `_checked`, which names the cap that is exceeded. -/
def checked (value : Value) (place : Where) : Result Value :=
  match value with
  | .str text =>
    if maxChars < text.toList.length then failAt place "the string exceeds 1048576 characters" else .ok value
  | .list items =>
    if maxItems < items.length then failAt place "the list exceeds 10000 elements" else .ok value

variable (py : Python)

def compile (pattern : String) (place : Where) : Result Pattern :=
  match py.compile pattern with
  | .ok pattern => .ok pattern
  | .error => failAt place "not a valid regular expression"
  | .overflow => .error .crash

/-- `text.split(by)` with a separator that is not empty; `n` is at least the length of the text. -/
def splitTerm (sep : List Char) : Nat → List Char → List (List Char)
  | 0, text => [text]
  | _ + 1, [] => [[]]
  | n + 1, c :: text =>
    if sep.isPrefixOf (c :: text) then [] :: splitTerm sep n ((c :: text).drop sep.length)
    else (splitTerm sep n text).modifyHead (c :: ·)

/-- The pieces between the matches, the first of them from `last` on. -/
def slices (text : List Char) : Nat → List (Nat × Nat) → List String
  | last, [] => [String.ofList (text.drop last)]
  | last, (start, stop) :: found => String.ofList ((text.drop last).take (start - last)) :: slices text stop found

def splitText (text by_ : String) (regex : Bool) (place : Where) : Result (List String) :=
  if !regex then
    if by_ = "" then .error .crash
    else .ok ((splitTerm by_.toList text.toList.length text.toList).map String.ofList)
  else do
    let pattern ← compile py by_ place
    return slices text.toList 0 (pattern.finditer text)

def keep (item : String) (kind : FilterKind) (arg : String) (negate : Bool) (pattern : Option Pattern) : Bool :=
  let hit : Bool :=
    match kind with
    | .notEmpty => item ≠ ""
    | .equals => item = arg
    | .contains => decide (arg.toList <:+: item.toList)
    | .matches_ => (pattern.bind fun pattern => pattern.search item).isSome
  hit ≠ negate

/-- `[+-]?(?:\d+(?:\.\d*)?|\.\d+)` over the whole text, and the decimal it writes. -/
def number? (item : String) : Option ℚ :=
  let (sign, digits) : ℚ × List Char :=
    match item.toList with
    | '+' :: digits => (1, digits)
    | '-' :: digits => (-1, digits)
    | digits => (1, digits)
  let whole := digits.takeWhile PyText.isDigit
  match digits.dropWhile PyText.isDigit with
  | [] => if whole = [] then none else some (sign * PyText.natOf whole)
  | '.' :: fraction =>
    if fraction.all PyText.isDigit ∧ whole ++ fraction ≠ [] then
      some (sign * (PyText.natOf (whole ++ fraction) / 10 ^ fraction.length))
    else none
  | _ => none

def number (item : String) (place : Where) : Result ℚ :=
  match number? item with
  | some n => .ok n
  | none => failAt place "an element is not a decimal number"

def sortItems (items : List String) (order : SortOrder) (numeric : Bool) (place : Where) : Result (List String) := do
  let ordered ←
    if numeric then do
      let keys ← items.mapM fun item => number item place
      pure (((items.zip keys).mergeSort fun a b => decide (a.2 ≤ b.2)).map Prod.fst)
    else pure (items.mergeSort fun a b => decide (a ≤ b))
  return if order = .desc then ordered.reverse else ordered

def pick (items : List String) (at_ : PickAt) (place : Where) : Result String :=
  let item : Option String :=
    match at_ with
    | .first => items.head?
    | .last => items.getLast?
    | .index i => items[i]?
  match item with
  | some item => .ok item
  | none => failAt place "the index is outside the list"

def parseJson (text : String) (place : Where) : Result (List String) :=
  match py.loads text with
  | some (.list data) =>
    .ok (data.map fun
      | .str item => item
      | item => py.jsonText item)
  | _ => failAt place "the text is not a JSON array"

def regexText (text pattern : String) (group : Nat) (place : Where) : Result String := do
  let pattern ← compile py pattern place
  if pattern.groups < group then failAt place ("the pattern has no group " ++ toString group)
  else
    match (pattern.search text).bind fun groups => (groups[group]?).join with
    | some found => return found
    | none => failAt place "the pattern does not match"

/-- `text.replace(find, with_)`, where an empty `find` is before each character and at the end. -/
def replaceLiteral (text find with_ : List Char) : List Char :=
  if find = [] then with_ ++ text.flatMap fun c => c :: with_ else Occurrence.replace find with_ text

def replaceText (text find with_ : String) (regex : Bool) (place : Where) : Result String :=
  if !regex then .ok (String.ofList (replaceLiteral text.toList find.toList with_.toList))
  else do
    let pattern ← compile py find place
    match pattern.sub with_ text with
    | .ok text => return text
    | .error => failAt place "the replacement is not valid for the pattern"
    | .overflow => .error .crash

def substringText (text : String) (start : Nat) (end_ : Option Nat) (place : Where) : Result String :=
  let stop := end_.getD text.toList.length
  if text.toList.length < start ∨ text.toList.length < stop ∨ stop < start then
    failAt place "start or end is outside the string"
  else .ok (String.ofList ((text.toList.take stop).drop start))

/-- `_apply`; an operation that receives the other kind of value breaks an assertion. -/
def apply (value : Value) (op : EvalOp) (place : Where) : Result Value :=
  match op, value with
  | .split by_ regex, .str text => .list <$> splitText py text by_ regex place
  | .join by_, .list items => .ok (.str (by_.intercalate items))
  | .filter kind arg negate, .list items => do
    let pattern ← if kind = .matches_ then some <$> compile py arg place else pure none
    return .list (items.filter fun item => keep item kind arg negate pattern)
  | .pick at_, .list items => .str <$> pick items at_ place
  | .sort order numeric, .list items => .list <$> sortItems items order numeric place
  | .regexOp pattern group, .str text => .str <$> regexText py text pattern group place
  | .replace find with_ regex, .str text => .str <$> replaceText py text find with_ regex place
  | .substring start end_, .str text => .str <$> substringText text start end_ place
  | .case_ .lower, .str text => .ok (.str (py.lower text))
  | .case_ .upper, .str text => .ok (.str (py.upper text))
  | .bare .json, .str text => .list <$> parseJson py text place
  | .bare .trim, .str text => .ok (.str (String.ofList (PyText.strip text.toList)))
  | .bare .count, .list items => .ok (.str (String.ofList (PyText.decimal items.length)))
  | .bare .unique, .list items => .ok (.list items.eraseDups)
  | .bare .reverse, .list items => .ok (.list items.reverse)
  | _, _ => .error .crash

/-- `_name` -/
def opName : EvalOp → String
  | .split _ _ => "split"
  | .join _ => "join"
  | .filter _ _ _ => "filter"
  | .pick _ => "pick"
  | .sort _ _ => "sort"
  | .regexOp _ _ => "regex"
  | .replace _ _ _ => "replace"
  | .substring _ _ => "substring"
  | .case_ _ => "case"
  | .bare .trim => "trim"
  | .bare .json => "json"
  | .bare .count => "count"
  | .bare .unique => "unique"
  | .bare .reverse => "reverse"

/-- The operations from a position on, each value they leave under the caps. -/
def runFrom : Nat → Value → List EvalOp → Result Value
  | _, value, [] => .ok value
  | position, value, op :: ops => do
    let place : Where := .op position (opName op)
    let value ← apply py value op place
    let value ← checked value place
    runFrom (position + 1) value ops

def runOps (source : String) (ops : List EvalOp) : Result Value := do
  let value ← checked (.str source) .from_
  runFrom py 1 value ops

/-! ## The step -/

/-- `into`: one variable, or one for each element of a list. -/
inductive EvalTarget where
  | var (name : String)
  | vars (names : List String) (named : names ≠ [] ∧ names.Nodup)

def EvalTarget.names : EvalTarget → List String
  | .var name => [name]
  | .vars names _ => names

structure Eval where
  from_ : String
  ops : List Val
  into : EvalTarget

/-- `bindings.update(items)` -/
def update (bindings items : List (String × String)) : List (String × String) :=
  items.foldl (fun bindings item => PyValue.set bindings item.1 item.2) bindings

def varKey (name : String) : String := "vars." ++ name

def storedText : Value → String
  | .str text => text
  | .list items => py.jsonText (.list (items.map .str))

/-- `from` and `ops` with every token resolved, refusing one that has no value. -/
def substituted (spec : Eval) (bindings : List (String × String)) : Result (String × List Val) :=
  let missing := (tokensOf spec.from_ ++ findTokensAll spec.ops).filter fun token => (get bindings token).isNone
  if missing = [] then .ok (interpStr bindings spec.from_, interpolateAll bindings spec.ops)
  else .error (.evalOp (.noValue (missing.dedup.mergeSort fun s t => decide (s ≤ t))))

/-- The entries for a result. -/
def assign (into : EvalTarget) (result : Value) : Result (List (String × String)) :=
  match into, result with
  | .var name, result => .ok [(varKey name, storedText py result)]
  | .vars names _, .list items =>
    if items.length < names.length then .error (.evalOp (.shorter names.length))
    else .ok ((names.map varKey).zip items)
  | .vars _ _, .str _ => .error .crash

/-- The `vars.*` entries the step writes. -/
def evaluate (spec : Eval) (bindings : List (String × String)) : Result (List (String × String)) := do
  let (source, rawOps) ← substituted spec bindings
  let ops ← parseOps py rawOps
  let result ← runOps py source ops
  assign py spec.into result

/-! ## What is secret -/

structure DerivedSecrets where
  values : List String
  secretVars : List String

/-- `register`: values that are not empty and not there yet, each once. -/
def DerivedSecrets.register (derived : DerivedSecrets) (values : List String) : DerivedSecrets :=
  { derived with
    values := derived.values ++ values.eraseDups.filter fun value => value ≠ "" && !derived.values.contains value }

/-- `_op_name` -/
def rawName : Val → String
  | .str name => name
  | .dict ((name, _) :: _) => name
  | _ => ""

def isSecret (secretVars : List String) (token : String) : Bool :=
  "secrets.".toList.isPrefixOf token.toList ||
    "vars.".toList.isPrefixOf token.toList && secretVars.contains (String.ofList (token.toList.drop 5))

/-- The operations after the last `count`, none when there is no `count`. -/
def afterCount : List Val → Option (List Val)
  | [] => none
  | op :: ops =>
    match afterCount ops with
    | some rest => some rest
    | none => if rawName op = "count" then some ops else none

/-- The tokens that can pass a secret on: all, or those after the last `count`. -/
def inputTokens (spec : Eval) : List String :=
  match afterCount spec.ops with
  | none => tokensOf spec.from_ ++ findTokensAll spec.ops
  | some rest => findTokensAll rest

def derivesFromSecret (spec : Eval) (secretVars : List String) : Bool :=
  (inputTokens spec).any (isSecret secretVars)

/-- What a step leaves behind: the text that it produced, and the secrets. -/
def recordEval (spec : Eval) (bindings : List (String × String)) (derived : DerivedSecrets) (completed : Bool) :
    Option String × DerivedSecrets :=
  match spec.into.names.mapM fun name => get bindings (varKey name) with
  | none => (none, derived)
  | some values =>
    let derived :=
      if derivesFromSecret spec derived.secretVars then
        { derived.register values with secretVars := derived.secretVars ++ spec.into.names }
      else if completed then
        { derived with secretVars := derived.secretVars.filter fun name => name ∉ spec.into.names }
      else derived
    let produced :=
      match spec.into, values with
      | .var _, value :: _ => value
      | _, _ => py.jsonText (.list (values.map .str))
    (some produced, derived)

/-! ## Steps of a run -/

structure Scope where
  bindings : List (String × String)
  derived : DerivedSecrets

/-- What else a step's outcome hangs on: whether it came to its handler, and whether the checks after it passed. -/
structure Outcome where
  reached : Bool
  passed : Bool

/-- What the handler writes, if it is reached and the pipeline does not fail. -/
def written (spec : Eval) (outcome : Outcome) (scope : Scope) : Option (List (String × String)) :=
  if outcome.reached then (evaluate py spec scope.bindings).toOption else none

/-- An exception that the handler lets through ends the run before anything is recorded. -/
def crashes (spec : Eval) (outcome : Outcome) (scope : Scope) : Bool :=
  outcome.reached && match evaluate py spec scope.bindings with
    | .error .crash => true
    | _ => false

def evalStep (spec : Eval) (outcome : Outcome) (scope : Scope) : Scope :=
  if crashes py spec outcome scope then scope
  else
    match written py spec outcome scope with
    | some items =>
      let bindings := update scope.bindings items
      ⟨bindings, (recordEval py spec bindings scope.derived outcome.passed).2⟩
    | none => ⟨scope.bindings, (recordEval py spec scope.bindings scope.derived false).2⟩

def runSteps (scope : Scope) (steps : List (Eval × Outcome)) : Scope :=
  steps.foldl (fun scope step => evalStep py step.1 step.2 scope) scope

end Bajutsu.Orchestrator.EvalStep
