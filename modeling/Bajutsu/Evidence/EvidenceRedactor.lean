import Bajutsu.Evidence.RedactionTracked

/-!
# The redactor of evidence

A target's `redact` block makes one redactor for free text, element trees, network exchanges and JSON
structures. Header values are masked by name, element values by label, trait or name, and keyed values of a
structure by key; every other text is scrubbed.
-/

namespace Bajutsu.Evidence

open Regex Occurrence

/-- `str.lower`: beyond ASCII it is the runtime's Unicode table. -/
structure Lowering where
  lower : List Char → List Char
  ascii : ∀ s : List Char, (∀ c ∈ s, c.toNat < 128) → lower s = s.map Char.toLower

structure Redact where
  labels : List (List Char) := []
  headers : List (List Char) := []
  fields : List (List Char) := []
  unmaskHeaders : List (List Char) := []
  unmaskSecureFields : Bool := false
  unmaskCredentialNames : Bool := false

def defaultSensitiveHeaders : List (List Char) :=
  ["authorization", "proxy-authorization", "cookie", "set-cookie", "x-api-key", "x-auth-token"].map String.toList

def cookieHeaders : List (List Char) := ["cookie", "set-cookie"].map String.toList

/-- Naming either cookie header covers both. -/
def withCookieLinkage (names : List (List Char)) : List (List Char) :=
  if names.any cookieHeaders.contains then names ++ cookieHeaders else names

def credentialNameWords : List (List Char) :=
  ["api_key", "apikey", "credential", "otp", "passwd", "password", "pin", "secret", "token"].map String.toList

def oneOf : List Re → Re
  | [] => .cls fun _ => false
  | [r] => r
  | r :: rs => .alt r (oneOf rs)

def Runtime.credentialName (rt : Runtime) : Re :=
  .seq .wordB (.seq (oneOf (credentialNameWords.map rt.literal)) .wordB)

def secureTextField : String := "secureTextField"

/-! ## Evidence -/

variable {α : Type}

/-- The fields of an element that redaction reads or writes. -/
structure Element (α : Type) where
  identifier : Option (List α)
  label : Option (List α)
  value : Option (List α)
  traits : List String

/-- Header values are the texts `str` gives of them. -/
structure Exchange (α : Type) where
  requestHeaders : Option (List (List Char × List α)) := none
  responseHeaders : Option (List (List Char × List α)) := none
  url : Option (List α) := none
  requestBody : Option (List α) := none
  responseBody : Option (List α) := none

/-- A JSON structure; a number or a literal is one symbol. -/
inductive Data (α : Type) where
  | str (text : List α)
  | scalar (x : α)
  | dict (members : List (List Char × Data α))
  | list (items : List (Data α))

inductive Artifact (α : Type) where
  | text (text : List α)
  | elements (elements : List (Element α))
  | exchange (exchange : Exchange α)
  | structured (keys : Bool) (data : Data α)

/-! ## The redactor -/

structure EvidenceRedactor extends Redactor where
  keyNames : List (List Char)
  headerNames : List (List Char)
  labels : List (List Char)
  maskSecureFields : Bool
  maskCredentialNames : Bool

namespace EvidenceRedactor

local instance lawfulName : LawfulBEq (List Char) := inferInstance

/-- `Redactor.__init__` -/
def make (lo : Lowering) (redact : Redact) (values : List (List Char)) : EvidenceRedactor :=
  { Redactor.make (redact.headers ++ redact.fields) values with
    keyNames := (redact.headers ++ redact.fields).map lo.lower
    headerNames :=
      (defaultSensitiveHeaders ++ withCookieLinkage (redact.headers.map lo.lower)).filter fun name =>
        name ∉ withCookieLinkage (redact.unmaskHeaders.map lo.lower)
    labels := redact.labels
    maskSecureFields := !redact.unmaskSecureFields
    maskCredentialNames := !redact.unmaskCredentialNames }

variable (S : Script α) (rt : Runtime) (lo : Lowering) (self : EvidenceRedactor)

def active : Bool :=
  self.keys ≠ [] || self.labels ≠ [] || rt.searchTerms self.rawValues ≠ [] || rt.searchTerms self.derived ≠ []

def redactText (text : List α) : List α := self.toRedactor.redactTextOn S rt text

/-- A name that is there and not empty, and names a credential. -/
def namesCredential (name : Option (List α)) : Bool :=
  match name with
  | some text => !text.isEmpty && (search S.toReading rt.credentialName false text).isSome
  | none => false

def masksByDefault (identifier label : Option (List α)) (traits : List String) : Bool :=
  (self.maskSecureFields && traits.contains secureTextField) ||
    (self.maskCredentialNames && (namesCredential S rt identifier || namesCredential S rt label))

/-- A text that is there and not empty is scrubbed. -/
def redactField (text : List α) : List α := if text.isEmpty then text else self.redactText S rt text

def redactElement (el : Element α) : Element α :=
  if (el.label.map (List.map S.char)).any self.labels.contains then
    { el with value := some (S.write placeholder) }
  else
    { el with
      label := el.label.map (self.redactField S rt)
      value :=
        if self.masksByDefault S rt el.identifier el.label el.traits then some (S.write placeholder)
        else el.value.map (self.redactField S rt) }

def redactElements (elements : List (Element α)) : List (Element α) :=
  if self.active rt || self.maskSecureFields || self.maskCredentialNames then
    elements.map (self.redactElement S rt)
  else elements

def redactHeader (header : List Char × List α) : List Char × List α :=
  (header.1, if self.headerNames.contains (lo.lower header.1) then S.write placeholder
    else self.redactText S rt header.2)

def redactExchange (exchange : Exchange α) : Exchange α :=
  if self.active rt || self.headerNames ≠ [] then
    { requestHeaders := exchange.requestHeaders.map (List.map (self.redactHeader S rt lo))
      responseHeaders := exchange.responseHeaders.map (List.map (self.redactHeader S rt lo))
      url := exchange.url.map (self.redactText S rt)
      requestBody := exchange.requestBody.map (self.redactText S rt)
      responseBody := exchange.responseBody.map (self.redactText S rt) }
  else exchange

mutual

def redactData (keys : Bool) : Data α → Data α
  | .str text => .str (self.redactText S rt text)
  | .scalar x => .scalar x
  | .dict members => .dict (redactMembers keys members)
  | .list items => .list (redactItems keys items)

def redactMembers (keys : Bool) : List (List Char × Data α) → List (List Char × Data α)
  | [] => []
  | (key, value) :: members =>
    (key, if keys && self.keyNames.contains (lo.lower key) then .str (S.write placeholder)
      else redactData keys value) :: redactMembers keys members

def redactItems (keys : Bool) : List (Data α) → List (Data α)
  | [] => []
  | item :: items => redactData keys item :: redactItems keys items

end

def redactStructure (keys : Bool) (data : Data α) : Data α :=
  if self.active rt then self.redactData S rt lo keys data else data

def redact : Artifact α → Artifact α
  | .text text => .text (self.redactText S rt text)
  | .elements elements => .elements (self.redactElements S rt elements)
  | .exchange exchange => .exchange (self.redactExchange S rt lo exchange)
  | .structured keys data => .structured keys (self.redactStructure S rt lo keys data)

end EvidenceRedactor

/-! ## What evidence shows -/

def optional (text : Option (List α)) : List α := text.getD []

/-- An element's label and value; its identifier is never masked. -/
def Element.symbols (el : Element α) : List α := optional el.label ++ optional el.value

def headerSymbols (headers : Option (List (List Char × List α))) : List α :=
  (headers.getD []).flatMap Prod.snd

def Exchange.symbols (exchange : Exchange α) : List α :=
  headerSymbols exchange.requestHeaders ++ headerSymbols exchange.responseHeaders ++ optional exchange.url ++
    optional exchange.requestBody ++ optional exchange.responseBody

mutual

def Data.symbols : Data α → List α
  | .str text => text
  | .scalar x => [x]
  | .dict members => memberSymbols members
  | .list items => itemSymbols items

def memberSymbols : List (List Char × Data α) → List α
  | [] => []
  | (_, value) :: members => value.symbols ++ memberSymbols members

def itemSymbols : List (Data α) → List α
  | [] => []
  | item :: items => item.symbols ++ itemSymbols items

end

def Artifact.symbols : Artifact α → List α
  | .text shown => shown
  | .elements els => els.flatMap Element.symbols
  | .exchange ex => ex.symbols
  | .structured _ data => data.symbols

/-! ## Several targets -/

/-- `_union_redact`, over the targets' own blocks. -/
def unionRedact (targets : List Redact) : Redact :=
  if targets = [] then {}
  else
    { labels := (targets.flatMap Redact.labels).eraseDups
      headers := (targets.flatMap Redact.headers).eraseDups
      fields := (targets.flatMap Redact.fields).eraseDups
      unmaskHeaders := (targets.flatMap Redact.unmaskHeaders).eraseDups
      unmaskSecureFields := targets.all Redact.unmaskSecureFields
      unmaskCredentialNames := targets.all Redact.unmaskCredentialNames }

end Bajutsu.Evidence
