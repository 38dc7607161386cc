import Bajutsu.Evidence.CredentialShapes
import Bajutsu.Lib.PyText
import Bajutsu.Lib.RegexPieces
import Mathlib.Data.List.Sort

/-!
# Redaction of free text

Free text is scrubbed by key patterns first, then of Basic-auth tokens that carry a secret, and then of
the secret values themselves and their encodings.
-/

namespace Bajutsu.Evidence

open Regex Occurrence

/-! ## Encodings of a value -/

def hexDigits (alpha : Nat) (digits n : Nat) : List Char :=
  match digits with
  | 0 => []
  | digits + 1 =>
    hexDigits alpha digits (n / 16) ++
      [if n % 16 < 10 then Char.ofNat ('0'.toNat + n % 16) else Char.ofNat (alpha + (n % 16 - 10))]

def percentByte (byte : UInt8) : List Char := '%' :: hexDigits 'A'.toNat 2 byte.toNat

/-- The characters `urllib.parse.quote` never quotes. -/
def alwaysSafe (c : Char) : Bool := c.isAlphanum || c ∈ ['_', '.', '-', '~']

def quoteChar (safe : List Char) (c : Char) : List Char :=
  if alwaysSafe c || c ∈ safe then [c] else (String.utf8EncodeChar c).flatMap percentByte

def quote (safe value : List Char) : List Char := value.flatMap (quoteChar safe)

def quotePlus (value : List Char) : List Char :=
  if ' ' ∈ value then (quote [' '] value).map fun c => if c = ' ' then '+' else c
  else quote [] value

def escapeChar (c : Char) : List Char :=
  if c = '&' then "&amp;".toList
  else if c = '<' then "&lt;".toList
  else if c = '>' then "&gt;".toList
  else if c = '"' then "&quot;".toList
  else if c = '\'' then "&#x27;".toList
  else [c]

def htmlEscape (value : List Char) : List Char := value.flatMap escapeChar

def unicodeEscape (code : Nat) : List Char := ['\\', 'u'] ++ hexDigits 'a'.toNat 4 code

def jsonChar (c : Char) : List Char :=
  if c = '"' then ['\\', '"']
  else if c = '\\' then ['\\', '\\']
  else if c.toNat = 8 then ['\\', 'b']
  else if c.toNat = 9 then ['\\', 't']
  else if c.toNat = 10 then ['\\', 'n']
  else if c.toNat = 12 then ['\\', 'f']
  else if c.toNat = 13 then ['\\', 'r']
  else if 32 ≤ c.toNat ∧ c.toNat ≤ 126 then [c]
  else if c.toNat < 0x10000 then unicodeEscape c.toNat
  else
    unicodeEscape (0xd800 + (c.toNat - 0x10000) / 0x400) ++
      unicodeEscape (0xdc00 + (c.toNat - 0x10000) % 0x400)

/-- `json.dumps` without the quotes around. -/
def jsonBody (value : List Char) : List Char := value.flatMap jsonChar

def encodedVariants (value : List Char) : List (List Char) :=
  [quote ['/'] value, quote [] value, quotePlus value, htmlEscape value, jsonBody value].filter
    fun variant => variant ≠ value

/-! ## The runtime -/

/-- What the interpreter decides: `\w`, equality under `re.I`, the order a set is iterated in, and the
text a base64 token decodes to. -/
structure Runtime where
  word : WordClass
  same : Char → Char → Bool
  same_self : ∀ c, same c c = true
  setOrder : List (List Char) → List (List Char)
  setOrder_perm : ∀ terms, (setOrder terms).Perm terms
  decodeToken : List Char → Option (List Char)
  decodeToken_length : ∀ token decoded, decodeToken token = some decoded → decoded.length ≤ token.length

namespace Runtime

def reading (rt : Runtime) : Reading Char := (Script.plain rt.word).toReading

/-- Each value plus its encodings, longest first. -/
def searchTerms (rt : Runtime) (rawValues : List (List Char)) : List (List Char) :=
  (rt.setOrder (rawValues ++ rawValues.flatMap encodedVariants).dedup).insertionSort
    fun a b => b.length ≤ a.length

/-! ## Key patterns -/

/-- A text that is matched whatever its case. -/
def literal (rt : Runtime) (s : List Char) : Re := s.foldr (fun c r => .seq (.cls (rt.same c)) r) .eps

end Runtime

def spaces : Re := .star true (.cls PyText.isSpace)

def someOf (holds : Char → Bool) : Re := .atLeast 1 (.cls holds)

def jsonString : Re :=
  .seq (.char '"') (.seq
    (.star true (.alt (.cls fun c => c ≠ '"' && c ≠ '\\') (.seq (.char '\\') (.cls (· ≠ '\n')))))
    (.char '"'))

namespace Runtime

variable (rt : Runtime)

/-- `("key"\s*:\s*)("(?:[^"\\]|\\.)*"|[^\s,}\]]+)` -/
def jsonPattern (key : List Char) : Keyed where
  group := .seq (.char '"') (.seq (rt.literal key) (.seq (.char '"') (.seq spaces (.seq (.char ':') spaces))))
  value := .alt jsonString (someOf fun c => !(PyText.isSpace c || c ∈ [',', '}', ']']))

/-- `\b(key\s*=\s*)[^\s&;,"]+` -/
def queryPattern (key : List Char) : Keyed where
  group := .seq .wordB (.seq (rt.literal key) (.seq spaces (.seq (.char '=') spaces)))
  value := someOf fun c => !(PyText.isSpace c || c ∈ ['&', ';', ',', '"'])

/-- `\b(key\s*:\s*).+` -/
def headerPattern (key : List Char) : Keyed where
  group := .seq .wordB (.seq (rt.literal key) (.seq spaces (.seq (.char ':') spaces)))
  value := someOf (· ≠ '\n')

/-- Each pattern and what it writes for the value. -/
def patterns (keys : List (List Char)) : List (Keyed × List Char) :=
  keys.flatMap fun key =>
    [(rt.jsonPattern key, ['"'] ++ placeholder.toList ++ ['"']),
      (rt.queryPattern key, placeholder.toList), (rt.headerPattern key, placeholder.toList)]

def base64Alphabet : List Char :=
  "ABCDEFGHIJKLMNOPQRSTUVWXYZabcdefghijklmnopqrstuvwxyz0123456789+/".toList

/-- `(Basic\s+)([A-Za-z0-9+/]+={0,2})` -/
def basicAuth : Keyed where
  group := .seq (rt.literal "Basic".toList) (someOf PyText.isSpace)
  value := .seq (someOf fun c => base64Alphabet.any fun d => rt.same d c)
    (.optional (.seq (.char '=') (.optional (.char '='))))

end Runtime

/-! ## The redactor -/

/-- The configured keys, the secret values, and the values derived from them mid-scenario. -/
structure Redactor where
  keys : List (List Char)
  rawValues : List (List Char)
  derived : List (List Char)

namespace Redactor

variable (rt : Runtime)

def make (keys values : List (List Char)) : Redactor where
  keys := keys
  rawValues := values.filter fun v => v ≠ []
  derived := []

/-- How one key pattern cuts the text. -/
def keyCut (pattern : Keyed × List Char) (text : List Char) : List (Piece Char) :=
  pattern.1.cut rt.reading (fun _ => some pattern.2) text

def keyPass (patterns : List (Keyed × List Char)) (text : List Char) : List Char :=
  patterns.foldl (fun text pattern => result (keyCut rt pattern text)) text

/-- A token that decodes to a text with a secret in it is masked. -/
def maskToken (values : List (List Char)) (token : List Char) : Option (List Char) :=
  match rt.decodeToken token with
  | some decoded =>
    if values.any fun v => decide (v <:+: decoded) then some placeholder.toList else none
  | none => none

def basicCut (values : List (List Char)) (text : List Char) : List (Piece Char) :=
  rt.basicAuth.cut rt.reading (maskToken rt values) text

def redactBasicAuth (self : Redactor) (text : List Char) : List Char :=
  result (basicCut rt self.rawValues text)

def replaceTerms (terms : List (List Char)) (text : List Char) : List Char :=
  terms.foldl (fun text term => replace term placeholder.toList text) text

def redactValues (self : Redactor) (text : List Char) : List Char :=
  replaceTerms (rt.searchTerms self.rawValues)
    (if self.rawValues = [] then text else self.redactBasicAuth rt text)

def redactDerived (self : Redactor) (text : List Char) : List Char :=
  replaceTerms (rt.searchTerms self.derived) text

def redactText (self : Redactor) (text : List Char) : List Char :=
  self.redactDerived rt (self.redactValues rt (keyPass rt (rt.patterns self.keys) text))

end Redactor

end Bajutsu.Evidence
