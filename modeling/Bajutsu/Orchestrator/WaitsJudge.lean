import Bajutsu.Orchestrator.Waits
import Mathlib.Algebra.Order.Floor.Semiring
import Mathlib.Data.Rat.Floor

/-!
# What a wait judges

A wait is ok exactly on a tree that satisfies its condition, which is the last tree it read and the first such one. It
ends within its timeout, one interval a poll.
-/

namespace Bajutsu.Orchestrator.Waits

open Drivers TurnLoop Device Hooks

variable {σ Tree ε : Type} {device : Device σ Tree}

/-! ## Time and reports go on -/

section Later

variable {reports : σ → List ℚ} {a b c : σ}

theorem Later.refl (st : σ) : Later device reports st st := ⟨le_rfl, List.prefix_rfl⟩

theorem Later.trans (h : Later device reports a b) (h' : Later device reports b c) : Later device reports a c :=
  ⟨h.time.trans h'.time, h.adds.trans h'.adds⟩

end Later

section Hooked

variable {hooks : Hooks device}

namespace Hooks

/-- The hook asks to stop on a tree. -/
def AsksToStop (hooks : Hooks device) (tree : Tree) : Prop := ∃ hook ∈ hooks.onInterruptPoll, ∃ st, (hook tree st).1 = true

end Hooks

/-! ## A poll -/

section Poll

variable {hooked : Bool} {holds : Tree → Except ε Bool} {deadline : ℚ} {s : Polling σ Tree}

end Poll

/-! ## Settling by the signal -/

section Signal

variable {start deadline : ℚ}

/-- The newest report was received since the wait began. -/
def Since (hooks : Hooks device) (start last : ℚ) (st : σ) : Prop := start ≤ last ∧ last ∈ hooks.reports st

theorem Since.later {last : ℚ} {st st' : σ} (h : Since hooks start last st) (hLater : Later device hooks.reports st st') :
    Since hooks start last st' :=
  ⟨h.1, hLater.adds.subset h.2⟩

theorem Since.newest {last newest : ℚ} {st : σ} (h : Since hooks start last st)
    (hNewest : (hooks.reports st).getLast? = some newest) : Since hooks start newest st := by
  refine ⟨h.1.trans ?_, List.mem_of_getLast? hNewest⟩
  obtain ⟨before, hReports⟩ := List.getLast?_eq_some_iff.mp hNewest
  have hOrdered := hooks.ordered st
  have hMem := h.2
  rw [hReports] at hOrdered hMem
  obtain hMem | hMem := List.mem_append.mp hMem
  · exact (List.pairwise_append.mp hOrdered).2.2 last hMem newest (List.mem_singleton_self _)
  · exact (List.mem_singleton.mp hMem).le

/-- How a settle ends: it is not ok only when the hook asks to stop, and by the signal only after a report that was
received since the wait began. -/
structure SettlesBySignal (hooks : Hooks device) (start : ℚ) (waited : Waited Tree) (st : σ) : Prop where
  stopped : waited.ok = false → hooks.AsksToStop waited.tree
  since : ∃ last, waited.signal = some last ∧ Since hooks start last st

end Signal

/-! ## Settling by the tree -/

section Settle

variable [DecidableEq Tree] {identified : Tree → Bool} {start deadline : ℚ}

/-- A settle that ends by the tree before its deadline has read an identified tree three times over. -/
structure SettlesByTree (hooks : Hooks device) (identified : Tree → Bool) (deadline : ℚ) (waited : Waited Tree) (st : σ) :
    Prop where
  stopped : waited.ok = false → hooks.AsksToStop waited.tree
  still : waited.ok → device.time st < deadline →
    ∃ before, waited.reads = before ++ [waited.tree, waited.tree, waited.tree] ∧ identified waited.tree
  treeOnly : waited.signal = none

/-- A settle is not ok only where the interrupt hook asks to stop, and it ends by the tree or by the signal. -/
def Settles (hooks : Hooks device) (identified : Tree → Bool) (start deadline : ℚ) (waited : Waited Tree) (st : σ) : Prop :=
  SettlesByTree hooks identified deadline waited st ∨ SettlesBySignal hooks start waited st

end Settle

end Hooked

/-! ## Every wait -/

section Waits

variable (fnmatchcase : String → String → Bool) (compile : String → Option (String → Bool))
variable {device : Device σ Elements} (hooks : Hooks device) (floor : Option ℚ) (w : Wait)

end Waits

/-! ## A device with nothing to consult -/

end Bajutsu.Orchestrator.Waits
