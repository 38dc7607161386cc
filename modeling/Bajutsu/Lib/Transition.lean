import Mathlib.Data.List.Basic

/-!
# Runs of a partial step function

A system takes the steps of its labels, where they are enabled. A run may be held to a condition on each of its
steps, which looks at the state before the step.
-/

namespace Bajutsu.Transition

variable {σ ℓ : Type} {step : σ → ℓ → Option σ} {ok ok' : σ → ℓ → Prop}

/-- A run all of whose steps meet the condition. -/
inductive ReachesWhile (step : σ → ℓ → Option σ) (ok : σ → ℓ → Prop) : σ → σ → Prop where
  | refl (st : σ) : ReachesWhile step ok st st
  | tail {st mid fin : σ} {label : ℓ} (h : ReachesWhile step ok st mid) (hOk : ok mid label)
      (hStep : step mid label = some fin) : ReachesWhile step ok st fin

abbrev Reaches (step : σ → ℓ → Option σ) : σ → σ → Prop := ReachesWhile step fun _ _ => True

def runWhile (step : σ → ℓ → Option σ) (ok : σ → ℓ → Prop) [∀ st label, Decidable (ok st label)] (st : σ) :
    List ℓ → Option σ
  | [] => some st
  | label :: labels => if ok st label then (step st label).bind fun st => runWhile step ok st labels else none

namespace ReachesWhile

theorem trans {a b c : σ} (hab : ReachesWhile step ok a b) (hbc : ReachesWhile step ok b c) :
    ReachesWhile step ok a c := by
  induction hbc with
  | refl => exact hab
  | tail _ hOk hStep ih => exact ih.tail hOk hStep

theorem mono (hOk : ∀ st label, ok st label → ok' st label) {st fin : σ} (h : ReachesWhile step ok st fin) :
    ReachesWhile step ok' st fin := by
  induction h with
  | refl => exact .refl _
  | tail _ hMeets hStep ih => exact ih.tail (hOk _ _ hMeets) hStep

theorem reaches {st fin : σ} (h : ReachesWhile step ok st fin) : Reaches step st fin := h.mono fun _ _ _ => trivial

theorem of_run [∀ st label, Decidable (ok st label)] {labels : List ℓ} {st fin : σ}
    (h : runWhile step ok st labels = some fin) : ReachesWhile step ok st fin := by
  induction labels generalizing st with
  | nil =>
    cases h
    exact .refl _
  | cons label labels ih =>
    rw [runWhile] at h
    split at h
    · rename_i hOk
      obtain ⟨mid, hStep, hRest⟩ := Option.bind_eq_some_iff.mp h
      exact ((ReachesWhile.refl st).tail hOk hStep).trans (ih hRest)
    · cases h

theorem keeps {P : σ → Prop} (hKeeps : ∀ st fin label, P st → ok st label → step st label = some fin → P fin)
    {st fin : σ} (h : ReachesWhile step ok st fin) (hStart : P st) : P fin := by
  induction h with
  | refl => exact hStart
  | tail _ hOk hStep ih => exact hKeeps _ _ _ ih hOk hStep

end ReachesWhile

theorem countP_set {α : Type} (p : α → Bool) {xs : List α} {n : Nat} {x y : α} (h : xs[n]? = some x) :
    (xs.set n y).countP p + (if p x then 1 else 0) = xs.countP p + if p y then 1 else 0 := by
  obtain ⟨hLess, rfl⟩ := List.getElem?_eq_some_iff.mp h
  rw [List.countP_set hLess]
  split
  · have hPos : 0 < xs.countP p := List.countP_pos_iff.mpr ⟨xs[n], List.getElem_mem hLess, ‹_›⟩
    omega
  · omega

end Bajutsu.Transition
