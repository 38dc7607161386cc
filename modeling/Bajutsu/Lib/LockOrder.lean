import Mathlib.Data.List.Sort
import Mathlib.Logic.Relation
import Mathlib.Order.Extension.Linear

/-!
# The order in which resources are taken

A plan lists the resources that a call takes, the first first. When one strict order puts every plan in
order, no calls that follow their plans wait for each other in a circle.
-/

namespace Bajutsu.LockOrder

open Relation

variable {π ν : Type}

/-- One linear order in which every plan goes strictly upwards. -/
def Ordered (plans : Set (List π)) : Prop :=
  ∃ le : π → π → Prop, IsLinearOrder π le ∧ ∀ plan ∈ plans, plan.Pairwise fun p q => le p q ∧ p ≠ q

/-- Some plan takes the first and later the second. -/
def Before (plans : Set (List π)) (p q : π) : Prop := ∃ plan ∈ plans, [p, q].Sublist plan

/-- Nothing comes before itself, over any number of steps. -/
def Acyclic (r : π → π → Prop) : Prop := ∀ p, ¬TransGen r p p

theorem Ordered.acyclic {plans : Set (List π)} (h : Ordered plans) : Acyclic (Before plans) := by
  obtain ⟨le, hLinear, hPlans⟩ := h
  have hStep : ∀ p q, Before plans p q → le p q ∧ p ≠ q := by
    rintro p q ⟨plan, hPlan, hSub⟩
    exact List.pairwise_iff_forall_sublist.mp (hPlans plan hPlan) hSub
  have hUp : ∀ p q, TransGen (Before plans) p q → le p q ∧ p ≠ q := by
    intro p q hPath
    induction hPath with
    | single hFirst => exact hStep _ _ hFirst
    | tail _ hLast ih =>
      obtain ⟨hLast, hDiffer⟩ := hStep _ _ hLast
      refine ⟨hLinear.trans _ _ _ ih.1 hLast, ?_⟩
      rintro rfl
      exact hDiffer (hLinear.antisymm _ _ hLast ih.1)
  intro p hCycle
  exact (hUp p p hCycle).2 rfl

theorem Acyclic.ordered {plans : Set (List π)} (h : Acyclic (Before plans)) : Ordered plans := by
  have hPartial : IsPartialOrder π (ReflTransGen (Before plans)) := {
    refl := fun _ => .refl
    trans := fun _ _ _ => ReflTransGen.trans
    antisymm := by
      intro p q hpq hqp
      obtain rfl | hPath := reflTransGen_iff_eq_or_transGen.mp hpq
      · rfl
      · exact absurd (hPath.trans_left hqp) (h p) }
  obtain ⟨le, hLinear, hExtends⟩ := extend_partialOrder (ReflTransGen (Before plans))
  refine ⟨le, hLinear, fun plan hPlan => ?_⟩
  rw [List.pairwise_iff_forall_sublist]
  intro p q hSub
  have hBefore : Before plans p q := ⟨plan, hPlan, hSub⟩
  constructor
  · exact hExtends _ _ (.single hBefore)
  · rintro rfl
    exact h p (.single hBefore)

theorem ordered_iff {plans : Set (List π)} : Ordered plans ↔ Acyclic (Before plans) :=
  ⟨Ordered.acyclic, Acyclic.ordered⟩

/-- What stands in order in a sorted list. -/
theorem pair_sublist {α : Type} {r : α → α → Prop} {xs : List α} (hSorted : xs.Pairwise r) {x y : α} (hx : x ∈ xs)
    (hy : y ∈ xs) (hDiffer : x ≠ y) (hOrder : ¬r y x) : [x, y].Sublist xs := by
  induction xs with
  | nil => cases hx
  | cons z xs ih =>
    obtain ⟨hFirst, hRest⟩ := List.pairwise_cons.mp hSorted
    obtain rfl | hxs := List.mem_cons.mp hx
    · have hLater : y ∈ xs := (List.mem_cons.mp hy).resolve_left hDiffer.symm
      exact (List.singleton_sublist.mpr hLater).cons_cons x
    · obtain rfl | hys := List.mem_cons.mp hy
      · exact absurd (hFirst x hxs) hOrder
      · exact (ih hRest hxs hys).cons z

/-! ## Calls that wait -/

/-- The first waits for what the second holds. -/
def Blocks (holds waits : ν → π → Prop) (n m : ν) : Prop := ∃ p, waits n p ∧ holds m p

/-- Calls each of which waits for what the next holds, and the last for what the first does. -/
def CircularWait (holds waits : ν → π → Prop) : Prop := ∃ n, TransGen (Blocks holds waits) n n

theorem blocks_path {before : π → π → Prop} {holds waits : ν → π → Prop}
    (hPlan : ∀ n p q, holds n p → waits n q → before p q) {n m : ν} (h : TransGen (Blocks holds waits) n m) :
    ∃ p q, waits n p ∧ holds m q ∧ ReflTransGen before p q := by
  induction h with
  | single hFirst =>
    obtain ⟨p, hWaits, hHolds⟩ := hFirst
    exact ⟨p, p, hWaits, hHolds, .refl⟩
  | tail _ hLast ih =>
    obtain ⟨p, q, hWaits, hHolds, hPath⟩ := ih
    obtain ⟨r, hNext, hLast⟩ := hLast
    exact ⟨p, r, hWaits, hLast, hPath.tail (hPlan _ _ _ hHolds hNext)⟩

/-- Calls that wait only for what comes after all they hold never wait in a circle. -/
theorem not_circularWait {before : π → π → Prop} (hAcyclic : Acyclic before) {holds waits : ν → π → Prop}
    (hPlan : ∀ n p q, holds n p → waits n q → before p q) : ¬CircularWait holds waits := by
  rintro ⟨n, hCycle⟩
  obtain ⟨p, q, hWaits, hHolds, hPath⟩ := blocks_path hPlan hCycle
  exact hAcyclic q (.head' (hPlan n q p hHolds hWaits) hPath)

end Bajutsu.LockOrder
