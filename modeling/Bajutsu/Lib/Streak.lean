import Mathlib.Data.Nat.Init
import Mathlib.Tactic.Common

/-!
# Capped streaks

A counter of consecutive successes that a failure resets and that stays where it is once it reaches its cap. It is full
exactly when the cap was reached in some window of consecutive successes, however long ago.
-/

namespace Bajutsu.Streak

def tick (cap : Nat) (success : Prop) [Decidable success] (count : Nat) : Nat :=
  if cap ≤ count then count else if success then count + 1 else 0

def streak (cap : Nat) (p : Nat → Prop) [DecidablePred p] : Nat → Nat
  | 0 => 0
  | k + 1 => tick cap (p k) (streak cap p k)

/-- `p` held at `cap` moments in a row, all before `k`. -/
def Full (cap : Nat) (p : Nat → Prop) (k : Nat) : Prop := ∃ j, j + cap ≤ k ∧ ∀ d < cap, p (j + d)

variable {cap : Nat} {p : Nat → Prop} [DecidablePred p]

/-- The counter counts a run of successes, which is the one that just ended unless the counter is full. -/
theorem streak_run (k : Nat) :
    ∃ j, j + streak cap p k ≤ k ∧ (streak cap p k < cap → j + streak cap p k = k) ∧
      ∀ d < streak cap p k, p (j + d) := by
  induction k with
  | zero => exact ⟨0, Nat.le_refl 0, fun _ => rfl, fun _ h => absurd h (Nat.not_lt_zero _)⟩
  | succ k ih =>
    obtain ⟨j, hLe, hEnds, hRun⟩ := ih
    rw [streak, tick]
    split
    · exact ⟨j, by omega, fun h => by omega, hRun⟩
    · rename_i hCap
      split
      · rename_i hp
        refine ⟨j, by omega, fun _ => by omega, ?_⟩
        intro d hd
        rcases Nat.lt_succ_iff_lt_or_eq.mp hd with hd | rfl
        · exact hRun d hd
        · rwa [hEnds (by omega)]
      · exact ⟨k + 1, Nat.le_refl _, fun _ => rfl, fun _ h => absurd h (Nat.not_lt_zero _)⟩

theorem cap_le_streak_succ {k : Nat} (h : cap ≤ streak cap p k) : cap ≤ streak cap p (k + 1) := by
  rw [streak, tick, if_pos h]
  exact h

theorem cap_le_streak_of_le {k l : Nat} (h : cap ≤ streak cap p k) (hLe : k ≤ l) : cap ≤ streak cap p l := by
  induction l, hLe using Nat.le_induction with
  | base => exact h
  | succ l _ ih => exact cap_le_streak_succ ih

theorem le_streak_of_run {j n : Nat} (hCap : n ≤ cap) (hRun : ∀ d < n, p (j + d)) : n ≤ streak cap p (j + n) := by
  induction n with
  | zero => exact Nat.zero_le _
  | succ n ih =>
    have h := ih (by omega) fun d hd => hRun d (by omega)
    rw [← Nat.add_assoc, streak, tick]
    split
    · omega
    · rw [if_pos (hRun n (by omega))]
      omega

theorem cap_le_streak_iff {k : Nat} : cap ≤ streak cap p k ↔ Full cap p k := by
  constructor
  · intro h
    obtain ⟨j, hLe, -, hRun⟩ := @streak_run cap p _ k
    exact ⟨j, by omega, fun d hd => hRun d (by omega)⟩
  · rintro ⟨j, hLe, hRun⟩
    exact cap_le_streak_of_le (le_streak_of_run (Nat.le_refl cap) hRun) hLe

end Bajutsu.Streak
