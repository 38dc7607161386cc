import Bajutsu.Crawl.Coordinator
import Bajutsu.Drivers.Selector
import Mathlib.Algebra.Order.Floor.Ring
import Mathlib.Data.Rat.Floor

/-!
# Screens

What a crawl reads off an element tree: the screen's identity, the actions to try from it, and its node.
-/

namespace Bajutsu.Crawl

open PyValue

abbrev Element := Drivers.Element ℚ

/-- SHA-1 of a text in hexadecimal, and `str.lower`. -/
structure Runtime where
  sha1 : String → String
  lower : String → String

def tapTraits : List String := ["button", "link", "switch", "tab"]

def inputTraits : List String := ["textField", "searchField", "secureTextField"]

def actionableTraits : List String := tapTraits ++ inputTraits

section Elements

variable (rt : Runtime) (el : Element)

/-- An element without an identifier has the empty one. -/
def idOf : String := el.identifier.getD ""

def hasTraitOf (traits : List String) : Bool := el.traits.any traits.contains

def isEnabled : Bool := !el.traits.contains "notEnabled"

def isSecure : Bool := el.traits.contains "secureTextField"

def isEmpty : Bool := el.value.getD "" = ""

def inputValue : String :=
  valueForField (fun text => (rt.lower (String.ofList text)).toList) (idOf el ++ " " ++ el.label.getD "") (isSecure el)

def fingerprintToken : String :=
  idOf el ++ (if isEnabled el then "" else "!") ++ (if hasTraitOf el inputTraits && !isEmpty el then "=" else "") ++
    (if el.traits.contains "selected" then "+" else "")

/-- The frame in units of 32 points, as a tuple is written. -/
def frameBucket : String :=
  let bucket (x : ℚ) : String := toString ⌊x / 32⌋
  "(" ++ bucket el.frame.1 ++ ", " ++ bucket el.frame.2.1 ++ ", " ++ bucket el.frame.2.2.1 ++ ", " ++
    bucket el.frame.2.2.2 ++ ")"

end Elements

section Trees

variable (rt : Runtime) (elements : List Element)

def ids : List String := ((elements.map idOf).filter (· ≠ "")).dedup

def sorted (names : List String) : List String := names.insertionSort (· ≤ ·)

/-- By the identifiers with their state when there are two or more of them, else by the traits and frames. -/
def fingerprint : Fingerprint :=
  if 2 ≤ (ids elements).length then
    ⟨rt.sha1 ("\n".intercalate
      (sorted ((elements.filter fun el => idOf el ≠ "").map fingerprintToken).dedup)), "id"⟩
  else
    ⟨rt.sha1 ("\n".intercalate (sorted ((elements.filter fun el => hasTraitOf el actionableTraits).map fun el =>
      ",".intercalate el.traits ++ "@" ++ frameBucket el))), "structural"⟩

/-- The controls to tap with their priority, tabs first. -/
def tapPriority : List (String × Nat) :=
  (elements.filter fun el => idOf el ≠ "" && isEnabled el && hasTraitOf el tapTraits).foldl
    (fun d el => set d (idOf el) (min ((get d (idOf el)).getD 2) (if el.traits.contains "tab" then 0 else 1))) []

/-- The empty text inputs: identifier, text to enter, and whether it is secure. -/
def emptyInputs : List (String × String × Bool) :=
  ((elements.filter fun el => idOf el ≠ "" && isEnabled el && hasTraitOf el inputTraits && isEmpty el).map
    fun el => (idOf el, inputValue rt el, isSecure el)).insertionSort
      fun a b => toLex (a.1, toLex (a.2.1, a.2.2)) ≤ toLex (b.1, toLex (b.2.1, b.2.2))

def candidateActions : List Action :=
  let taps := (tapPriority elements).insertionSort fun a b => toLex (a.2, a.1) ≤ toLex (b.2, b.1)
  let inputs := emptyInputs rt elements
  taps.map (fun tap => { kind := .tap, target := tap.1 }) ++
    inputs.map (fun input => { kind := .type, target := input.1, value := some input.2.1, secure := input.2.2 }) ++
    if 2 ≤ inputs.length then
      [{ kind := .fill, fields := inputs.map fun input => (input.1, input.2.1), secure := inputs.any fun input => input.2.2 }]
    else []

def blockedControls : List String :=
  sorted (((elements.filter fun el => !isEnabled el && hasTraitOf el actionableTraits).map idOf).filter (· ≠ "")).dedup

def nodeOf (spelling : Spelling) (fp : Fingerprint) (actions : List Action) : Node where
  fingerprint := fp.value
  kind := fp.kind
  ids := sorted (ids elements)
  actions := actions.map (Action.key spelling)
  blocked := blockedControls elements

end Trees

end Bajutsu.Crawl
