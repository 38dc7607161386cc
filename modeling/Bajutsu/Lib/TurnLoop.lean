import Mathlib.Algebra.Order.Ring.Rat
import Mathlib.Tactic.Linarith
import Mathlib.Tactic.Ring

/-!
# Loops that take turns

A turn raises, ends the loop with a result, or goes on in a new state. A loop ends when each turn that goes on begins
before a deadline and takes at least some interval.
-/

namespace Bajutsu.TurnLoop

variable {S A E : Type*}

def loop (turn : S → Except E (A ⊕ S)) : Nat → S → Option (Except E A)
  | 0, _ => none
  | fuel + 1, s =>
    match turn s with
    | .error e => some (.error e)
    | .ok (.inl a) => some (.ok a)
    | .ok (.inr next) => loop turn fuel next

variable {turn : S → Except E (A ⊕ S)}

/-- However the loop ends, it is by a turn that kept everything. -/
theorem loop_last {P : S → Prop} (hNext : ∀ s next, P s → turn s = .ok (.inr next) → P next) {fuel : Nat} {s : S}
    {out : Except E A} (hs : P s) (h : loop turn fuel s = some out) :
    ∃ last, P last ∧ turn last = out.map Sum.inl := by
  induction fuel generalizing s with
  | zero => cases h
  | succ fuel ih =>
    rw [loop] at h
    split at h
    · rename_i hTurn
      cases h
      exact ⟨s, hs, hTurn⟩
    · rename_i hTurn
      cases h
      exact ⟨s, hs, hTurn⟩
    · rename_i next hTurn
      exact ih (hNext s next hs hTurn) h

theorem loop_of_le {fuel enough : Nat} {s : S} {out : Except E A} (hLe : enough ≤ fuel)
    (h : loop turn enough s = some out) : loop turn fuel s = some out := by
  induction enough generalizing fuel s with
  | zero => cases h
  | succ enough ih =>
    obtain ⟨fuel, rfl⟩ : ∃ n, fuel = n + 1 := ⟨fuel - 1, by omega⟩
    rw [loop] at h ⊢
    split at h
    · exact h
    · exact h
    · exact ih (by omega) h

theorem loop_reaches {states : Nat → S} {k : Nat} (h : ∀ j < k, turn (states j) = .ok (.inr (states (j + 1))))
    (fuel : Nat) : loop turn (fuel + k) (states 0) = loop turn fuel (states k) := by
  induction k generalizing fuel with
  | zero => rfl
  | succ k ih =>
    rw [show fuel + (k + 1) = fuel + 1 + k by omega, ih (fun j hj => h j (by omega)), loop, h k (by omega)]

theorem loop_isSome {t : S → ℚ} {deadline interval : ℚ}
    (hNext : ∀ s next, turn s = .ok (.inr next) → t s < deadline ∧ t s + interval ≤ t next) {n fuel : Nat} {s : S}
    (hTime : deadline ≤ t s + n * interval) (hFuel : n < fuel) : (loop turn fuel s).isSome := by
  induction n generalizing s fuel with
  | zero =>
    obtain ⟨fuel, rfl⟩ : ∃ k, fuel = k + 1 := ⟨fuel - 1, by omega⟩
    rw [loop]
    split
    · rfl
    · rfl
    · rename_i next hTurn
      have := (hNext s next hTurn).1
      rw [Nat.cast_zero, zero_mul] at hTime
      linarith
  | succ n ih =>
    obtain ⟨fuel, rfl⟩ : ∃ k, fuel = k + 1 := ⟨fuel - 1, by omega⟩
    rw [loop]
    split
    · rfl
    · rfl
    · rename_i next hTurn
      apply ih
      · have := (hNext s next hTurn).2
        rw [Nat.cast_succ, add_mul, one_mul] at hTime
        linarith
      · omega

end Bajutsu.TurnLoop
