import Bajutsu.Devices.Version

/-!
# Reading a version range

`VersionSpec.parse` splits a text at `||`, reads each side as a hyphen range or as comparators, and
desugars what it read. The three regular expressions of the source never have a choice that
backtracking could revise, so each is a deterministic reader here.
-/

namespace Bajutsu.Devices

open PyText

/-- A comparator's operator as written; none at all is `exact` too. -/
inductive Operator where
  | tilde
  | caret
  | le
  | ge
  | lt
  | gt
  | exact
  deriving DecidableEq

/-- `_PART`: `0`, a number without a leading zero, or an x-wildcard. -/
def readPart : List Char → Option (List Char × List Char)
  | '0' :: cs => some (['0'], cs)
  | c :: cs =>
    if '1' ≤ c ∧ c ≤ '9' then some (c :: cs.takeWhile isDigit, cs.dropWhile isDigit)
    else if c = 'x' ∨ c = 'X' ∨ c = '*' then some ([c], cs)
    else none
  | [] => none

/-- `(?:\.PART)?`. -/
def readDotPart : List Char → Option (List Char) × List Char
  | '.' :: cs =>
    match readPart cs with
    | some (part, rest) => (some part, rest)
    | none => (none, '.' :: cs)
  | cs => (none, cs)

/-- `[0-9A-Za-z.-]`. -/
def isTag (c : Char) : Bool :=
  ('0' ≤ c ∧ c ≤ '9') ∨ ('A' ≤ c ∧ c ≤ 'Z') ∨ ('a' ≤ c ∧ c ≤ 'z') ∨ c = '.' ∨ c = '-'

/-- `(?:MARK[0-9A-Za-z.-]+)?`, the prerelease after `-` and the build metadata after `+`. -/
def readTag (mark : Char) : List Char → Option (List Char) × List Char
  | [] => (none, [])
  | c :: cs =>
    if c = mark ∧ cs.takeWhile isTag ≠ [] then (some (cs.takeWhile isTag), cs.dropWhile isTag)
    else (none, c :: cs)

/-- The groups of `_XVERSION`. -/
structure XVersion where
  major : List Char
  minor : Option (List Char)
  patch : Option (List Char)
  pre : Option (List Char)

def readXVersion (cs : List Char) : Option (XVersion × List Char) :=
  match readPart (dropV cs) with
  | none => none
  | some (major, rest) =>
    let (minor, rest) := readDotPart rest
    -- `patch` is only tried where `minor` matched; elsewhere the text has no `.PART` to offer.
    let (patch, rest) := readDotPart rest
    let (pre, rest) := readTag '-' rest
    let (_, rest) := readTag '+' rest
    some (⟨major, minor, patch, pre⟩, rest)

def readOperator : List Char → Operator × List Char
  | '~' :: '>' :: cs => (.tilde, cs)
  | '~' :: cs => (.tilde, cs)
  | '^' :: cs => (.caret, cs)
  | '<' :: '=' :: cs => (.le, cs)
  | '>' :: '=' :: cs => (.ge, cs)
  | '<' :: cs => (.lt, cs)
  | '>' :: cs => (.gt, cs)
  | '=' :: cs => (.exact, cs)
  | cs => (.exact, cs)

/-- `_COMPARATOR_RE.fullmatch`. -/
def readComparator (token : List Char) : Option (Operator × XVersion) :=
  let (op, rest) := readOperator token
  match readXVersion rest with
  | some (version, []) => some (op, version)
  | _ => none

/-- `\s+` at the head of a text. -/
def readSpaces : List Char → Option (List Char)
  | [] => none
  | c :: cs => if isSpace c then some (cs.dropWhile isSpace) else none

/-- `_HYPHEN_RE.fullmatch`. -/
def readHyphen (part : List Char) : Option (XVersion × XVersion) := do
  let (lo, rest) ← readXVersion part
  match ← readSpaces rest with
  | '-' :: rest =>
    match ← readXVersion (← readSpaces rest) with
    | (hi, []) => some (lo, hi)
    | _ => none
  | _ => none

/-- `_OP_SPACE_RE.sub(r"\1", part)`: whitespace that follows an operator's last character goes. Every
such character is an operator on its own, so the scan never passes one by. -/
def joinOperators (afterOperator : Bool) : List Char → List Char
  | [] => []
  | c :: cs =>
    if afterOperator && isSpace c then joinOperators true cs
    else c :: joinOperators (c ∈ ['~', '>', '^', '<', '=']) cs

/-- A partial version: the numbers before the first wildcard or absent part. -/
structure Partial where
  major : Option Nat
  minor : Option Nat
  patch : Option Nat
  deriving DecidableEq

def isWild (part : List Char) : Bool := part = ['x'] ∨ part = ['X'] ∨ part = ['*']

/-- The loop over the three groups, `wild` once a wildcard or an absent group was met. -/
def readPartials (wild : Bool) : List (Option (List Char)) → Except VersionError (List (Option Nat))
  | [] => .ok []
  | none :: groups => (readPartials true groups).map fun parts => none :: parts
  | some g :: groups =>
    if wild || isWild g then (readPartials true groups).map fun parts => none :: parts
    else do
      let n ← int g
      let parts ← readPartials false groups
      pure (some n :: parts)

def partialOf (version : XVersion) (text : String) : Except VersionError Partial :=
  match version.pre with
  | some pre => .error (.prerelease text (String.ofList pre))
  | none => do
    let parts ← readPartials false [some version.major, version.minor, version.patch]
    pure ⟨parts[0]?.join, parts[1]?.join, parts[2]?.join⟩

/-- The plain comparators a comparator expands to; `none` matches nothing. -/
def desugar (op : Operator) (p : Partial) : Option (List (Op × Version)) :=
  match p.major with
  | none => if op = .lt ∨ op = .gt then none else some []
  | some major =>
    let floor : Version := ⟨major, p.minor.getD 0, p.patch.getD 0⟩
    let past : Version :=
      match p.minor with
      | none => ⟨major + 1, 0, 0⟩
      | some minor => ⟨major, minor + 1, 0⟩
    match op with
    | .tilde => some [(.ge, floor), (.lt, past)]
    | .caret =>
      let hi : Version :=
        match p.minor with
        | none => ⟨major + 1, 0, 0⟩
        | some minor =>
          if major ≠ 0 then ⟨major + 1, 0, 0⟩
          else
            match p.patch with
            | none => ⟨0, minor + 1, 0⟩
            | some patch => if minor ≠ 0 then ⟨0, minor + 1, 0⟩ else ⟨0, 0, patch + 1⟩
      some [(.ge, floor), (.lt, hi)]
    | .exact =>
      match p.minor, p.patch with
      | none, _ => some [(.ge, ⟨major, 0, 0⟩), (.lt, ⟨major + 1, 0, 0⟩)]
      | some minor, none => some [(.ge, ⟨major, minor, 0⟩), (.lt, ⟨major, minor + 1, 0⟩)]
      | some minor, some patch => some [(.eq, ⟨major, minor, patch⟩)]
    | .gt => some [if p.patch = none then (.ge, past) else (.gt, floor)]
    | .le => some [if p.patch = none then (.lt, past) else (.le, floor)]
    | .ge => some [(.ge, floor)]
    | .lt => some [(.lt, floor)]

def hyphen (lo hi : Partial) : List (Op × Version) :=
  (match lo.major with
    | none => []
    | some major => [(.ge, ⟨major, lo.minor.getD 0, lo.patch.getD 0⟩)]) ++
  match hi.major, hi.minor, hi.patch with
  | none, _, _ => []
  | some major, none, _ => [(.lt, ⟨major + 1, 0, 0⟩)]
  | some major, some minor, none => [(.lt, ⟨major, minor + 1, 0⟩)]
  | some major, some minor, some patch => [(.le, ⟨major, minor, patch⟩)]

/-- The loop over a side's tokens; a comparator that matches nothing ends it with `none`. -/
def readTokens (text : String) : List (List Char) → Except VersionError (Option (List (Op × Version)))
  | [] => .ok (some [])
  | token :: tokens =>
    match readComparator token with
    | none => .error (.unreadable text (String.ofList token))
    | some (op, version) => do
      let p ← partialOf version text
      match desugar op p with
      | none => pure none
      | some expanded => do
        let rest ← readTokens text tokens
        pure (rest.map fun comparators => expanded ++ comparators)

def parseSet (part : List Char) (text : String) : Except VersionError VersionRange :=
  match readHyphen (strip part) with
  | some (lo, hi) => do
    let lo ← partialOf lo text
    let hi ← partialOf hi text
    pure (intersect (hyphen lo hi))
  | none => do
    match ← readTokens text (words (joinOperators false (strip part))) with
    | none => pure { lower := none, upper := none, empty := true }
    | some comparators => pure (intersect comparators)

structure VersionSpec where
  text : String
  alternatives : List VersionRange
  deriving DecidableEq

namespace VersionSpec

def parse (text : String) : Except VersionError VersionSpec := do
  let alternatives ← (splitBars text.toList).mapM fun part => parseSet part text
  pure ⟨text, alternatives⟩

def contains (spec : VersionSpec) (version : Version) : Bool :=
  spec.alternatives.any fun alt => alt.contains version

def bounded (spec : VersionSpec) : Bool := spec.alternatives.all VersionRange.bounded

/-- The majors of the bounded sides, ascending and without repeats. -/
def majors (spec : VersionSpec) : Except VersionError (List Nat) := do
  let covered ← (spec.alternatives.filter VersionRange.bounded).mapM VersionRange.majors
  pure (covered.flatten.toFinset.sort)

end VersionSpec

end Bajutsu.Devices
