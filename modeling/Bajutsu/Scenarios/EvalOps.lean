import Bajutsu.Lib.PyText
import Bajutsu.Lib.PyValue

/-!
# The operations of an `eval` step

Parsing, argument checks and the type flow. The loader checks an `ops` list with the arguments that still hold a token
deferred; the handler substitutes the tokens and parses again with nothing deferred. An error names the operation's
position and name and quotes no argument.
-/

namespace Bajutsu.Scenarios

open PyValue

inductive ValueKind where
  | string
  | list
  deriving DecidableEq

inductive FilterKind where
  | matches_
  | equals
  | contains
  | notEmpty
  deriving DecidableEq

inductive PickAt where
  | first
  | last
  | index (i : Nat)
  deriving DecidableEq

inductive SortOrder where
  | asc
  | desc
  deriving DecidableEq

inductive CaseTo where
  | lower
  | upper
  deriving DecidableEq

inductive Bare where
  | trim
  | json
  | count
  | unique
  | reverse
  deriving DecidableEq

inductive EvalOp where
  | split (by_ : String) (regex : Bool)
  | join (by_ : String)
  | filter (kind : FilterKind) (arg : String) (negate : Bool)
  | pick (at_ : PickAt)
  | sort (order : SortOrder) (numeric : Bool)
  | regexOp (pattern : String) (group : Nat)
  | replace (find with_ : String) (regex : Bool)
  | substring (start : Nat) (end_ : Option Nat)
  | case_ (to_ : CaseTo)
  | bare (name : Bare)
  deriving DecidableEq

/-- What an error's text starts with: `from`, or `op {position} ({name})`. -/
inductive Where where
  | from_
  | op (position : Nat) (name : String)
  deriving DecidableEq

inductive EvalOpError where
  | fail (place : Where) (why : String)
  | unknownArguments (place : Where) (extra allowed : List String)
  | noOps
  | notAnOperation (position : Nat)
  | unknownOperation (position : Nat)
  | clash (place : Where) (takes receives : ValueKind)
  | noValue (tokens : List String)
  | shorter (names : Nat)
  deriving DecidableEq

/-- An exception: an `EvalOpError`, which the handler makes a failed step, or one it lets through (an assertion, `int`
refusing a text longer than its limit, or what `re` raises besides `re.error`). -/
inductive Raised where
  | evalOp (error : EvalOpError)
  | crash
  deriving DecidableEq

/-- What `re` makes of a text: a result, an error (`re.error`, for a replacement `IndexError` too), or an exception of
another class, as a count or a group number that is too large. -/
inductive ReResult (α : Type) where
  | ok (result : α)
  | error
  | overflow

/-- A compiled pattern. `search` lists the groups of the first match, the whole match first. -/
structure Pattern where
  groups : Nat
  search : String → Option (List (Option String))
  finditer : String → List (Nat × Nat)
  sub : String → String → ReResult String

/-- What the code takes of Python's libraries: `re.compile`, `json.loads`, `json_text` of a value that is not a string,
and the two case mappings. -/
structure Python where
  compile : String → ReResult Pattern
  loads : String → Option Val
  jsonText : Val → String
  lower : String → String
  upper : String → String

/-- `_Deferred`, or an error. -/
inductive Stop where
  | deferred
  | raised (e : Raised)

structure Args where
  place : Where
  args : List (String × Val)
  defer : Bool

def hasPlaceholderStart (text : String) : Bool := decide (['$', '{'] <:+: text.toList)

namespace Args

variable (py : Python) (a : Args)

def fail {α : Type} (why : String) : Except Stop α := .error (.raised (.evalOp (.fail a.place why)))

def over_ (args : List (String × Val)) : Args := { a with args }

def only (allowed : List String) : Except Stop Unit :=
  let extra := (a.args.map Prod.fst).filter fun key => key ∉ allowed
  if extra = [] then .ok ()
  else .error (.raised (.evalOp (.unknownArguments a.place (extra.mergeSort fun s t => decide (s ≤ t)) allowed)))

def deferred : Val → Bool
  | .str text => a.defer && hasPlaceholderStart text
  | _ => false

def deferIfToken (value : Val) : Except Stop Unit := if a.deferred value then .error .deferred else .ok ()

/-- `text(key, required=False, default=default)` when there is a default. -/
def text (key : String) (default : Option String) : Except Stop String :=
  match (get a.args key).getD .null, default with
  | .null, some default => .ok default
  | .null, none => a.fail ("`" ++ key ++ "` is required")
  | .str value, _ => .ok value
  | _, _ => a.fail ("`" ++ key ++ "` must be a string")

def flag (key : String) : Except Stop Bool :=
  match get a.args key with
  | none => .ok false
  | some (.bool value) => .ok value
  | some _ => a.fail ("`" ++ key ++ "` must be true or false")

def asIndex (value : Val) (label : String) : Except Stop Nat :=
  match value with
  | .int i => if 0 ≤ i then .ok i.toNat else a.fail (label ++ " must be a non-negative integer")
  | .str text =>
    if text ≠ "" ∧ text.toList.all PyText.isDigit then
      match PyText.intOf text.toList with
      | some n => .ok n
      | none => .error (.raised .crash)
    else a.fail (label ++ " must be a non-negative integer")
  | _ => a.fail (label ++ " must be a non-negative integer")

def index (key : String) (required : Bool) : Except Stop (Option Nat) :=
  match (get a.args key).getD .null with
  | .null => if required then a.fail ("`" ++ key ++ "` is required") else .ok none
  | value => do
    a.deferIfToken value
    return some (← a.asIndex value ("`" ++ key ++ "`"))

def pattern (value label : String) : Except Stop String := do
  a.deferIfToken (.str value)
  match py.compile value with
  | .ok _ => return value
  | .error => a.fail (label ++ " is not a valid regular expression")
  | .overflow => .error (.raised .crash)

end Args

section Parsers

variable (py : Python) (a : Args)

def parseSplit (raw : Val) : Except Stop EvalOp := do
  let args ← match raw with
    | .str by_ => pure [("by", Val.str by_)]
    | .dict items => pure items
    | _ => a.fail "takes a separator string or \x7b by, regex \x7d"
  let a := a.over_ args
  a.only ["by", "regex"]
  let by_ ← a.text "by" none
  let regex ← a.flag "regex"
  a.deferIfToken (.str by_)
  if by_ = "" then a.fail "the separator must not be empty"
  else if regex then return .split (← a.pattern py by_ "`by`") regex
  else return .split by_ regex

def parseJoin : Val → Except Stop EvalOp
  | .str by_ => .ok (.join by_)
  | _ => a.fail "takes a separator string"

def filterKinds : List (FilterKind × String) :=
  [(.matches_, "matches"), (.equals, "equals"), (.contains, "contains"), (.notEmpty, "notEmpty")]

def parseFilter (raw : Val) : Except Stop EvalOp := do
  match raw with
  | .dict items =>
    let a := a.over_ items
    a.only (filterKinds.map Prod.snd ++ ["not"])
    match filterKinds.filter fun kind => (get items kind.2).isSome with
    | [(kind, key)] =>
      let negate ← a.flag "not"
      if kind = .notEmpty then
        match get items key with
        | some (.bool true) => return .filter kind "" negate
        | _ => a.fail "`notEmpty` must be true (use `not: true` to keep only empty elements)"
      else
        let arg ← a.text key none
        if kind = .matches_ then return .filter kind (← a.pattern py arg "`matches`") negate
        else
          a.deferIfToken (.str arg)
          return .filter kind arg negate
    | _ => a.fail "exactly one of ['matches', 'equals', 'contains', 'notEmpty'] is required"
  | _ => a.fail "takes \x7b matches | equals | contains | notEmpty, not? \x7d"

def parsePick (raw : Val) : Except Stop EvalOp :=
  match raw with
  | .str "first" => .ok (.pick .first)
  | .str "last" => .ok (.pick .last)
  | _ => do
    a.deferIfToken raw
    return .pick (.index (← a.asIndex raw "the index"))

def parseSort (raw : Val) : Except Stop EvalOp := do
  match raw with
  | .null => return .sort .asc false
  | .str order => ofArgs [("order", .str order)]
  | .dict items => ofArgs items
  | _ => a.fail "takes `asc`, `desc`, or \x7b order, numeric \x7d"
where
  ofArgs (items : List (String × Val)) : Except Stop EvalOp := do
    let a := a.over_ items
    a.only ["order", "numeric"]
    match ← a.text "order" (some "asc") with
    | "asc" => return .sort .asc (← a.flag "numeric")
    | "desc" => return .sort .desc (← a.flag "numeric")
    | _ => a.fail "`order` must be asc or desc"

def parseRegex (raw : Val) : Except Stop EvalOp := do
  match raw with
  | .dict items =>
    let a := a.over_ items
    a.only ["pattern", "group"]
    let group ← a.index "group" false
    let pattern ← a.pattern py (← a.text "pattern" none) "`pattern`"
    return .regexOp pattern (group.getD 0)
  | _ => a.fail "takes \x7b pattern, group? \x7d"

def parseReplace (raw : Val) : Except Stop EvalOp := do
  match raw with
  | .dict items =>
    let a := a.over_ items
    a.only ["find", "with", "regex"]
    let find ← a.text "find" none
    let with_ ← a.text "with" none
    let regex ← a.flag "regex"
    a.deferIfToken (.str with_)
    if regex then return .replace (← a.pattern py find "`find`") with_ regex
    else
      a.deferIfToken (.str find)
      return .replace find with_ regex
  | _ => a.fail "takes \x7b find, with, regex? \x7d"

def parseSubstring (raw : Val) : Except Stop EvalOp := do
  match raw with
  | .dict items =>
    let a := a.over_ items
    a.only ["start", "end"]
    let start ← a.index "start" true
    let end_ ← a.index "end" false
    match start with
    | some start => return .substring start end_
    | none => .error (.raised .crash)
  | _ => a.fail "takes \x7b start, end? \x7d"

def parseCase : Val → Except Stop EvalOp
  | .str "lower" => .ok (.case_ .lower)
  | .str "upper" => .ok (.case_ .upper)
  | _ => a.fail "takes lower or upper"

end Parsers

/-- Input and output kind per operation. -/
def signatures : List (String × ValueKind × ValueKind) :=
  [("split", .string, .list), ("join", .list, .string), ("filter", .list, .list), ("pick", .list, .string),
    ("count", .list, .string), ("sort", .list, .list), ("unique", .list, .list), ("reverse", .list, .list),
    ("json", .string, .list), ("regex", .string, .string), ("replace", .string, .string),
    ("substring", .string, .string), ("trim", .string, .string), ("case", .string, .string)]

def bareOps : List (String × Bare) :=
  [("trim", .trim), ("json", .json), ("count", .count), ("unique", .unique), ("reverse", .reverse)]

/-- `_PARSERS[name](a, arg)` -/
def parseArgs (py : Python) (a : Args) (arg : Val) : String → Except Stop EvalOp
  | "split" => parseSplit py a arg
  | "join" => parseJoin a arg
  | "filter" => parseFilter py a arg
  | "pick" => parsePick a arg
  | "sort" => parseSort a arg
  | "regex" => parseRegex py a arg
  | "replace" => parseReplace py a arg
  | "substring" => parseSubstring a arg
  | "case" => parseCase a arg
  | _ => .error (.raised .crash)

/-- An operation's name, its argument, and whether it is a bare name. -/
def opParts : Val → Option (String × Val × Bool)
  | .str name => some (name, .null, true)
  | .dict [(name, arg)] => some (name, arg, false)
  | _ => none

/-- The operation's name and its parsed form, none when a deferred token blocks the parse. -/
def parseOne (py : Python) (raw : Val) (position : Nat) (defer : Bool) : Except Raised (String × Option EvalOp) :=
  match opParts raw with
  | none => .error (.evalOp (.notAnOperation position))
  | some (name, arg, isBare) =>
    let place : Where := .op position name
    if (get signatures name).isNone then .error (.evalOp (.unknownOperation position))
    else if isBare ∧ name ≠ "sort" ∧ (get bareOps name).isNone then .error (.evalOp (.fail place "takes arguments"))
    else
      match get bareOps name with
      | some op =>
        if isBare then .ok (name, some (.bare op))
        else .error (.evalOp (.fail place "takes no arguments; write it as a bare name"))
      | none =>
        match parseArgs py ⟨place, [], defer⟩ arg name with
        | .ok op => .ok (name, some op)
        | .error .deferred => .ok (name, none)
        | .error (.raised e) => .error e

/-- The operations of a list, the first of them at the position. -/
def parseAll (py : Python) (defer : Bool) : Nat → List Val → Except Raised (List (String × Option EvalOp))
  | _, [] => .ok []
  | position, raw :: raws => do
    let first ← parseOne py raw position defer
    let rest ← parseAll py defer (position + 1) raws
    return first :: rest

/-- The kind a pipeline ends with that receives the kind. -/
def flowFrom (kind : ValueKind) : Nat → List String → Except Raised ValueKind
  | _, [] => .ok kind
  | position, name :: names =>
    match get signatures name with
    | none => .error .crash
    | some (takes, gives) =>
      if kind ≠ takes then .error (.evalOp (.clash (.op position name) takes kind))
      else flowFrom gives (position + 1) names

def typeFlow (names : List String) : Except Raised ValueKind := flowFrom .string 1 names

def checkOps (py : Python) (raw : List Val) : Except Raised ValueKind :=
  if raw = [] then .error (.evalOp .noOps)
  else do
    let parsed ← parseAll py true 1 raw
    typeFlow (parsed.map Prod.fst)

def parseOps (py : Python) (raw : List Val) : Except Raised (List EvalOp) := do
  let _ ← checkOps py raw
  let parsed ← parseAll py false 1 raw
  parsed.mapM fun op =>
    match op.2 with
    | some op => .ok op
    | none => .error .crash

end Bajutsu.Scenarios
