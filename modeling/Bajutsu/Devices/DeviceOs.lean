import Bajutsu.Devices.Version
import Bajutsu.Lib.PyValue

/-!
# The operating system of a run

A run records a label such as `iOS 18.6`. The platform and the first two components of its version are what two runs on
one system share; the label itself takes no part in equality. A report spells the system in one way.
-/

namespace Bajutsu.Devices.DeviceOs

open PyText PyValue

/-- `_PLATFORMS`. -/
def platforms : List (String × String) := [("ios", "iOS"), ("android", "Android")]

structure DeviceOS where
  platform : String
  major : Nat
  minor : Nat
  label : String

inductive DeviceOSError where
  /-- `int()` past its digit limit. -/
  | value (e : VersionError)
  /-- No platform is spelled so. -/
  | key (platform : String)

/-! ## A label -/

/-- A letter of the pattern against a character, as `re.IGNORECASE` compares them. -/
def sameLetter (letter c : Char) : Bool :=
  c.toLower = letter || (letter = 'i' && (c = 'İ' || c = 'ı')) || (letter = 's' && c = 'ſ')

/-- The characters that match a platform's spelling at the head of a text, and the rest. -/
def wordAt : List Char → List Char → Option (List Char × List Char)
  | [], cs => some ([], cs)
  | _ :: _, [] => none
  | letter :: letters, c :: cs =>
    if sameLetter letter c then (wordAt letters cs).map fun (word, rest) => (c :: word, rest) else none

/-- `str.lower()` on what such a spelling matches. -/
def lowerWord (word : List Char) : List Char :=
  word.flatMap fun c => if c = 'İ' then ['i', '\u0307'] else [c.toLower]

/-- `(?:\.\d+)*\s*` to the end of a text. -/
def endsIn (cs : List Char) : Bool :=
  match (cs.rdropWhile isSpace).splitOn '.' with
  | [] :: patches => patches.all fun digits => digits ≠ [] && digits.all isDigit
  | _ => false

/-- `_LABEL_RE.fullmatch(label)`: the platform, the major version and the minor one. -/
def fullmatch (cs : List Char) : Option (List Char × List Char × Option (List Char)) := do
  let (word, rest) ← platforms.findSome? fun p => wordAt p.1.toList (cs.dropWhile isSpace)
  let (major, rest) ← if rest.takeWhile isSpace = [] then none else digitsAt (rest.dropWhile isSpace)
  let (minor, rest) := dotDigits rest
  if endsIn rest then some (word, major, minor) else none

def parse (label : String) : Except DeviceOSError (Option DeviceOS) :=
  match fullmatch label.toList with
  | none => .ok none
  | some (word, major, minor) =>
    match int major, intOrZero minor with
    | .ok major, .ok minor => .ok (some ⟨String.ofList (lowerWord word), major, minor, label⟩)
    | .error e, _ | _, .error e => .error (.value e)

/-- A label that is not a text names no system. -/
def parseValue : Option Val → Except DeviceOSError (Option DeviceOS)
  | some (.str label) => parse label
  | _ => .ok none

/-! ## In a report -/

def DeviceOS.display (os : DeviceOS) : Except DeviceOSError String :=
  match get platforms os.platform with
  | none => .error (.key os.platform)
  | some name => .ok (name ++ " " ++ toString os.major ++ "." ++ toString os.minor)

def canonicalOs : Option DeviceOS → Except DeviceOSError (Option DeviceOS)
  | none => .ok none
  | some os => do return some { os with label := ← os.display }

/-- An unknown system goes last. -/
def orderingKey : Option DeviceOS → Nat ×ₗ String ×ₗ Nat ×ₗ Nat
  | none => toLex (1, toLex ("", toLex (0, 0)))
  | some os => toLex (0, toLex (os.platform, toLex (os.major, os.minor)))

/-- What equality compares. -/
def DeviceOS.identity (os : DeviceOS) : String × Nat × Nat := (os.platform, os.major, os.minor)

theorem canonicalOs_eq {os os' : Option DeviceOS} (h : os.map DeviceOS.identity = os'.map DeviceOS.identity) :
    canonicalOs os = canonicalOs os' := by
  cases os with
  | none =>
    cases os' with
    | none => rfl
    | some os' => cases h
  | some os =>
    cases os' with
    | none => cases h
    | some os' =>
      obtain ⟨platform, major, minor, label⟩ := os
      obtain ⟨platform', major', minor', label'⟩ := os'
      simp only [Option.map_some, DeviceOS.identity, Option.some.injEq, Prod.mk.injEq] at h
      obtain ⟨rfl, rfl, rfl⟩ := h
      rfl

theorem canonicalOs_identity {os canonical : Option DeviceOS} (h : canonicalOs os = .ok canonical) :
    canonical.map DeviceOS.identity = os.map DeviceOS.identity ∧ canonicalOs canonical = .ok canonical := by
  cases os with
  | none =>
    cases h
    exact ⟨rfl, rfl⟩
  | some os =>
    obtain ⟨display, hDisplay, hCanonical⟩ := bind_eq_ok h
    cases hCanonical
    have hSame : ({ os with label := display } : DeviceOS).display = .ok display := hDisplay
    refine ⟨rfl, ?_⟩
    rw [canonicalOs, hSame]
    rfl

theorem identity_of_orderingKey {os os' : Option DeviceOS} (h : orderingKey os = orderingKey os') :
    os.map DeviceOS.identity = os'.map DeviceOS.identity := by
  cases os with
  | none =>
    cases os' with
    | none => rfl
    | some os' => simp [orderingKey] at h
  | some os =>
    cases os' with
    | none => simp [orderingKey] at h
    | some os' =>
      simp only [orderingKey, toLex_inj, Prod.mk.injEq, true_and] at h
      simp only [Option.map_some, DeviceOS.identity, h]

end Bajutsu.Devices.DeviceOs
