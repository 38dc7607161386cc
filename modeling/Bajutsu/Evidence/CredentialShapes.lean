import Bajutsu.Lib.RegexSearch

/-!
# Credential shapes and the line masker

Text about to leave the tool is masked wherever it has the shape of a credential. A live log arrives
line by line, so its masker remembers that a private key block is open. Texts are lists of symbols read
as characters: plain characters, or characters that remember where they stood.
-/

namespace Bajutsu.Evidence

open Regex

/-- `\w`: beyond ASCII it is the runtime's Unicode table. -/
structure WordClass where
  holds : Char → Bool
  ascii : ∀ c : Char, c.toNat < 128 → holds c = (c.isAlphanum || c == '_')

def asciiWords : WordClass where
  holds c := c.isAlphanum || c == '_'
  ascii _ _ := rfl

/-- How symbols are read as characters, and how replacement text is written. -/
structure Script (α : Type) extends Reading α where
  fresh : Char → α
  char_fresh : ∀ c, char (fresh c) = c
  ascii : ∀ c : Char, c.toNat < 128 → word c = (c.isAlphanum || c == '_')

def Script.plain (word : WordClass) : Script Char where
  char c := c
  word := word.holds
  fresh c := c
  char_fresh _ := rfl
  ascii := word.ascii

/-- A character and where it stood; replacement text stood nowhere. -/
abbrev Tracked := Char × Option Nat

def Script.tracked (word : WordClass) : Script Tracked where
  char := Prod.fst
  word := word.holds
  fresh c := (c, none)
  char_fresh _ := rfl
  ascii := word.ascii

def placeholder : String := "[REDACTED]"

/-! ## Shapes -/

def alnum (c : Char) : Bool := c.isAlphanum

def token (c : Char) : Bool := c.isAlphanum || c == '_' || c == '-'

def upperDigit (c : Char) : Bool := c.isDigit || c.isUpper

def upperSpace (c : Char) : Bool := c.isUpper || c == ' '

def anthropicApiKey : Re := .seq (.text "sk-ant-") (.atLeast 16 (.cls token))

def awsAccessKeyId : Re :=
  .seq .wordB (.seq (.text "AKIA") (.seq (.exactly 16 (.cls upperDigit)) .wordB))

def githubToken : Re :=
  .seq .wordB (.seq (.text "gh") (.seq (.cls fun c => c ∈ ['p', 'o', 'u', 's', 'r'])
    (.seq (.char '_') (.atLeast 20 (.cls alnum)))))

def jsonWebToken : Re :=
  .seq .wordB (.seq (.text "eyJ") (.seq (.atLeast 8 (.cls token)) (.seq (.char '.')
    (.seq (.atLeast 8 (.cls token)) (.seq (.char '.') (.atLeast 8 (.cls token)))))))

/-- `-----BEGIN [A-Z ]*PRIVATE KEY-----`, and the same for `END`. -/
def pemMarker (word : String) : Re :=
  .seq (.text ("-----" ++ word ++ " ")) (.seq (.star true (.cls upperSpace)) (.text "PRIVATE KEY-----"))

def pemBegin : Re := pemMarker "BEGIN"

def pemEnd : Re := pemMarker "END"

/-- The whole block when its END line is present, else the header alone. -/
def pemPrivateKey : Re :=
  .seq pemBegin (.optional (.seq (.star false (.cls fun _ => true)) pemEnd))

def credentialShapes : List (String × Re) :=
  [("anthropicApiKey", anthropicApiKey), ("awsAccessKeyId", awsAccessKeyId),
    ("githubToken", githubToken), ("jsonWebToken", jsonWebToken), ("pemPrivateKey", pemPrivateKey)]

variable {α : Type} (S : Script α)

def Script.write (s : String) : List α := s.toList.map S.fresh

/-- Masks one shape and adds its name when it matched. -/
def maskShape (state : List α × List String) (shape : String × Re) : List α × List String :=
  (sub S.toReading shape.2 (S.write placeholder) state.1,
    if (search S.toReading shape.2 false state.1).isSome then state.2 ++ [shape.1] else state.2)

def maskShapes (shapes : List (String × Re)) (text : List α) : List α × List String :=
  shapes.foldl (maskShape S) (text, [])

def maskCredentialShapes (text : List α) : List α × List String := maskShapes S credentialShapes text

/-! ## The line masker -/

/-- How many lines a block may run before an END that never came is given up on. -/
def pemMaxLines : Nat := 200

/-- The line has a BEGIN marker, and no END marker behind the first one. -/
def opensBlock (line : List α) : Bool :=
  match search S.toReading pemBegin false line with
  | some begin => (search S.toReading pemEnd false begin.after).isNone
  | none => false

def endsWithNewline (line : List α) : Bool :=
  match line.getLast? with
  | some x => S.char x == '\n'
  | none => false

/-- A line outside a block, or in one that was given up on. -/
def maskOutside (line : List α) : Nat × List α :=
  (if opensBlock S line then 1 else 0, (maskCredentialShapes S line).1)

/-- `LineCredentialMasker.mask`: the count of lines masked in the open block, 0 when none is open, and
the line masked. -/
def maskLine (inPem : Nat) (line : List α) : Nat × List α :=
  if inPem = 0 then maskOutside S line
  else
    match search S.toReading pemEnd false line with
    | some found => (0, S.write placeholder ++ (maskCredentialShapes S found.after).1)
    | none =>
      if inPem + 1 ≤ pemMaxLines then
        (inPem + 1, S.write placeholder ++ if endsWithNewline S line then [S.fresh '\n'] else [])
      else maskOutside S line

/-- One masker fed the lines one at a time. -/
def maskLines : Nat → List (List α) → List (List α)
  | _, [] => []
  | inPem, line :: lines =>
    (maskLine S inPem line).2 :: maskLines (maskLine S inPem line).1 lines

end Bajutsu.Evidence
