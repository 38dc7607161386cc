import Bajutsu.Drivers.Selector
import Bajutsu.Orchestrator.Polling
import Mathlib.Data.Prod.Lex
import Mathlib.Data.List.Sort

/-!
# Settling the read of an extract

A step that copies a property out of the screen reads it until two consecutive reads agree on it. On a backend whose
reads lag behind, the agreement only counts once the lag since the actuation is over.
-/

namespace Bajutsu.Orchestrator.ExtractSettle

open Drivers PyValue

/-! ## The projection two reads are compared by -/

inductive ExtractProp where
  | value
  | label
  | identifier

structure Extract where
  sel : Selector
  prop : ExtractProp := .value

def ExtractProp.of : ExtractProp → Element ℚ → String
  | value, el => el.value.getD ""
  | label, el => el.label.getD ""
  | identifier, el => el.identifier.getD ""

instance : DecidableEq (List (String × Frame ℚ)) := inferInstanceAs (DecidableEq (List (String × ℚ × ℚ × ℚ × ℚ)))

section Projection

variable (fnmatchcase : String → String → Bool) (compile : String → Option (String → Bool))

end Projection

/-! ## The poll -/

variable {σ Tree K ε : Type} [DecidableEq K]

/-- A tree that was read, its projection, and the time the read was started at. -/
structure Read (Tree K : Type) where
  tree : Tree
  key : K
  started : ℚ

/-- One turn of the poll: the time it began, the read, whether it agrees with the one before and then whether it ended
at or after the barrier, and the state. -/
structure Turn (σ Tree K : Type) where
  began : ℚ
  read : Read Tree K
  trusted : Bool
  st : σ

section Settle

variable (device : Device σ Tree) (key : Tree → Except ε K)

def readScreen (st : σ) : Except ε (Read Tree K × σ) := do
  let (tree, st') := device.query st
  let k ← key tree
  return (⟨tree, k, device.time st⟩, st')

def turn (barrier : Option ℚ) (previous : Read Tree K) (st : σ) : Except ε (Turn σ Tree K) := do
  let (began, st) := device.now st
  let (read, st) ← readScreen device key st
  if read.key = previous.key then
    match barrier with
    | none => return ⟨began, read, true, st⟩
    | some barrier =>
      let (now, st) := device.now st
      return ⟨began, read, barrier ≤ now, st⟩
  else return ⟨began, read, false, st⟩

end Settle

/-! ## What the poll returns -/

section Reads

variable (device : Device σ Tree) (key : Tree → Except ε K) (barrier deadline : ℚ) (first : Read Tree K) (start : σ)

end Reads

section Settles

variable {device : Device σ Tree} {key : Tree → Except ε K} {barrier deadline : ℚ}

end Settles

end Bajutsu.Orchestrator.ExtractSettle
