import Mathlib.Algebra.Order.Group.Unbundled.Abs
import Mathlib.Algebra.Order.ZeroLEOne
import Mathlib.Algebra.Order.Ring.Int
import Bajutsu.Drivers.Selector

/-!
# One control registered twice, on the device and on the host

The runner re-resolves a recorded handle by a flat query and treats several matches as one control when they
agree on value and frame, a point of slack allowed. The host collapses the twins of an `/elements` reply by
their exact content. Both run here over one list of candidates. Coordinates have a subtraction and an order.
-/

namespace Bajutsu.Drivers

open PyValue

/-- What a handle recorded of its element, and what a live query reads of a candidate. -/
structure RecordedAttributes (N : Type) where
  identifier : Option String
  label : Option String
  value : Option String
  traits : List String
  frame : Frame N

section Resolving

variable {N : Type} [AddGroup N] [LinearOrder N] [One N]

def framesEqual (a b : Frame N) : Bool :=
  let (ax, ay, aw, ah) := a
  let (bx, bY, bw, bh) := b
  |ax - bx| ≤ 1 && |ay - bY| ≤ 1 && |aw - bw| ≤ 1 && |ah - bh| ≤ 1

def agrees (candidate other : RecordedAttributes N) : Bool :=
  candidate.value = other.value && framesEqual candidate.frame other.frame

end Resolving

/-! ## Identity, as the host compares it -/

section Identity

variable {N : Type}

local instance transTraits : IsTrans String (· ≤ ·) := inferInstance

local instance antisymmTraits : @Std.Antisymm String (· ≤ ·) := inferInstance

end Identity

/-! ## The host's collapse -/

section Collapse

variable {N : Type} [DecidableEq N]

end Collapse

/-! ## The two verdicts -/

section Verdicts

variable {N : Type}

variable [AddGroup N] [LinearOrder N] [One N]

variable [ZeroLEOneClass N]

end Verdicts

/-! An alert's button, registered twice at one frame beside another one. -/

end Bajutsu.Drivers
