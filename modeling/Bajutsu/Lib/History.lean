import Mathlib.Data.List.Basic
import Mathlib.Data.List.Infix

/-!
# Logs that only grow

What has happened since an entry of a log, when nothing that disturbs it came after.
-/

namespace Bajutsu.History

variable {α : Type}

/-- The log has had `x`, at a point where `P` held of what was before, and only quiet entries since. -/
def Since (P : List α → Prop) (x : α) (quiet : α → Prop) (log : List α) : Prop :=
  ∃ before later, log = before ++ x :: later ∧ P before ∧ ∀ y ∈ later, quiet y

variable {P : List α → Prop} {x y : α} {quiet : α → Prop} {log : List α}

/-- An entry of a log that just grew is the new one, or stood there before. -/
theorem split_snoc {earlier later : List α} {first last : α} (h : log ++ [last] = earlier ++ first :: later) :
    (later = [] ∧ first = last ∧ earlier = log) ∨ ∃ rest, later = rest ++ [last] ∧ log = earlier ++ first :: rest := by
  obtain rfl | ⟨rest, final, rfl⟩ := List.eq_nil_or_concat later
  · obtain ⟨rfl, hLast⟩ := List.append_inj' h rfl
    exact .inl ⟨rfl, (List.singleton_inj.mp hLast).symm, rfl⟩
  · rw [List.concat_eq_append] at h ⊢
    rw [← List.cons_append, ← List.append_assoc] at h
    obtain ⟨rfl, hLast⟩ := List.append_inj' h rfl
    exact .inr ⟨rest, by rw [List.singleton_inj.mp hLast], rfl⟩

theorem Since.here (h : P log) : Since P x quiet (log ++ [x]) :=
  ⟨log, [], rfl, h, fun _ hMem => nomatch hMem⟩

theorem Since.later (h : Since P x quiet log) (hQuiet : quiet y) : Since P x quiet (log ++ [y]) := by
  obtain ⟨before, later, rfl, hBefore, hLater⟩ := h
  refine ⟨before, later ++ [y], by rw [List.append_assoc]; rfl, hBefore, ?_⟩
  intro z hMem
  rcases List.mem_append.mp hMem with hMem | hMem
  · exact hLater z hMem
  · rw [List.mem_singleton.mp hMem]
    exact hQuiet

theorem Since.mem (h : Since P x quiet log) : x ∈ log := by
  obtain ⟨before, later, rfl, -, -⟩ := h
  simp

/-- An entry that is not quiet has `x` after it, or is `x`. -/
theorem Since.mem_of_not_quiet {before later : List α} (h : Since P x quiet (before ++ y :: later))
    (hy : ¬quiet y) : x ∈ y :: later := by
  obtain ⟨first, rest, hEq, -, hRest⟩ := h
  rcases List.append_eq_append_iff.mp hEq with ⟨mid, -, hMid⟩ | ⟨mid, -, hMid⟩
  · rw [hMid]
    simp
  · cases mid with
    | nil =>
      obtain ⟨rfl, -⟩ := List.cons.inj hMid
      exact List.mem_cons_self
    | cons z mid =>
      obtain ⟨rfl, rfl⟩ := List.cons.inj hMid
      exact absurd (hRest y (by simp)) hy

/-- Of two entries, one comes before the other. -/
theorem before_or_after {before before' later later' : List α} {x x' : α}
    (hEq : before ++ x :: later = before' ++ x' :: later') (hNe : x ≠ x') : x ∈ before' ∨ x' ∈ before := by
  rcases List.append_eq_append_iff.mp hEq with ⟨mid, rfl, hMid⟩ | ⟨mid, rfl, hMid⟩
  · cases mid with
    | nil => exact absurd (List.cons.inj hMid).1 hNe
    | cons y mid =>
      obtain ⟨rfl, -⟩ := List.cons.inj hMid
      exact .inl (by simp)
  · cases mid with
    | nil => exact absurd (List.cons.inj hMid).1.symm hNe
    | cons y mid =>
      obtain ⟨rfl, -⟩ := List.cons.inj hMid
      exact .inr (by simp)

/-- The first entry that is not quiet is where it is. -/
theorem first_unique {before before' later later' : List α} {x x' : α}
    (hEq : before ++ x :: later = before' ++ x' :: later') (hBefore : ∀ y ∈ before, quiet y)
    (hBefore' : ∀ y ∈ before', quiet y) (hx : ¬quiet x) (hx' : ¬quiet x') :
    before = before' ∧ x = x' ∧ later = later' := by
  induction before generalizing before' with
  | nil =>
    cases before' with
    | nil =>
      obtain ⟨rfl, rfl⟩ := List.cons.inj hEq
      exact ⟨rfl, rfl, rfl⟩
    | cons y before' =>
      obtain ⟨rfl, -⟩ := List.cons.inj hEq
      exact absurd (hBefore' x List.mem_cons_self) hx
  | cons y before ih =>
    cases before' with
    | nil =>
      obtain ⟨rfl, -⟩ := List.cons.inj hEq
      exact absurd (hBefore y List.mem_cons_self) hx'
    | cons y' before' =>
      obtain ⟨rfl, hRest⟩ := List.cons.inj hEq
      obtain ⟨rfl, rfl, rfl⟩ := ih hRest (fun z hMem => hBefore z (List.mem_cons_of_mem _ hMem))
        (fun z hMem => hBefore' z (List.mem_cons_of_mem _ hMem))
      exact ⟨rfl, rfl, rfl⟩

/-- An entry of a kind the log has once is where it is. -/
theorem once_unique {p : α → Bool} (hOnce : log.countP p ≤ 1) {before before' later later' : List α}
    {x x' : α} (hEq : log = before ++ x :: later) (hEq' : log = before' ++ x' :: later')
    (hx : p x = true) (hx' : p x' = true) : before = before' ∧ x = x' ∧ later = later' := by
  have hNone : ∀ {before later : List α} {x : α}, log = before ++ x :: later → p x = true →
      ∀ y ∈ before, ¬p y = true := by
    intro before later x hEq hx y hMem hy
    have hCount : 0 < before.countP p := List.countP_pos_iff.mpr ⟨y, hMem, hy⟩
    rw [hEq, List.countP_append, List.countP_cons_of_pos hx] at hOnce
    omega
  exact @first_unique _ (fun y => ¬p y = true) _ _ _ _ _ _ (hEq.symm.trans hEq') (hNone hEq hx)
    (hNone hEq' hx') (not_not_intro hx) (not_not_intro hx')

/-! ## Each entry by what was before it -/

/-- Each entry stands in the relation to the log before it. -/
def Throughout (Q : List α → α → Prop) (log : List α) : Prop :=
  ∀ before x after, log = before ++ x :: after → Q before x

variable {Q : List α → α → Prop}

theorem throughout_nil : Throughout Q [] := by
  intro before x after hEq
  exact absurd hEq.symm (List.append_ne_nil_of_right_ne_nil _ (List.cons_ne_nil _ _))

theorem throughout_snoc : Throughout Q (log ++ [x]) ↔ Throughout Q log ∧ Q log x := by
  constructor
  · intro h
    constructor
    · rintro before y after rfl
      exact h before y (after ++ [x]) (by simp)
    · exact h log x [] rfl
  · rintro ⟨hLog, hx⟩ before y after hEq
    obtain ⟨rfl, rfl, rfl⟩ | ⟨rest, rfl, rfl⟩ := split_snoc hEq
    · exact hx
    · exact hLog before y rest rfl

/-- A kind of entry that has none of the kind before it comes once. -/
theorem Throughout.countP_le_one {p : α → Bool}
    (h : Throughout (fun before x => p x = true → ∀ y ∈ before, p y = false) log) : log.countP p ≤ 1 := by
  induction log using List.reverseRecOn with
  | nil => exact Nat.zero_le 1
  | append_singleton log x ih =>
    obtain ⟨hLog, hx⟩ := throughout_snoc.mp h
    have hOnce := ih hLog
    rw [List.countP_append]
    cases hp : p x with
    | false =>
      have hLast : [x].countP p = 0 := by simp [hp]
      omega
    | true =>
      have hNone : log.countP p = 0 := List.countP_eq_zero.mpr fun y hMem => by simp [hx hp y hMem]
      have hLast : [x].countP p = 1 := by simp [hp]
      omega

end Bajutsu.History
