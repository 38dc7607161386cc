import Mathlib.Order.Bounds.Basic
import Bajutsu.Devices.VersionSpec

/-!
# What a comparator means

The versions a comparator stands for, stated without intervals: a partial version stands for the
versions that agree with it on its written components, and every operator compares against that set.
Desugaring a comparator to plain ones keeps this meaning.
-/

namespace Bajutsu.Devices

open PyText

/-! ## Partial versions and operators -/

def Version.components (v : Version) : List Nat := [v.major, v.minor, v.patch]

/-- The versions that agree with the written components. -/
def Agreeing (written : List Nat) : Set Version := {v | written <+: v.components}

def leastOf (written : List Nat) : Version :=
  ⟨written[0]?.getD 0, written[1]?.getD 0, written[2]?.getD 0⟩

/-- The components up to and including the left-most that is not zero; all of them if none is. -/
def upToNonzero (written : List Nat) : List Nat := written.take (written.findIdx (· ≠ 0) + 1)

def Operator.Denotes : Operator → List Nat → Version → Prop
  | .exact, written, v => v ∈ Agreeing written
  | .gt, written, v => ∀ w ∈ Agreeing written, w < v
  | .ge, written, v => ∃ least, IsLeast (Agreeing written) least ∧ least ≤ v
  | .lt, written, v => ∀ w ∈ Agreeing written, v < w
  | .le, written, v => ∃ w ∈ Agreeing written, v ≤ w
  | .tilde, written, v =>
    (∃ least, IsLeast (Agreeing written) least ∧ least ≤ v) ∧ v ∈ Agreeing (written.take 2)
  | .caret, written, v =>
    (∃ least, IsLeast (Agreeing written) least ∧ least ≤ v) ∧ v ∈ Agreeing (upToNonzero written)

def HyphenDenotes (lo hi : List Nat) (v : Version) : Prop :=
  Operator.ge.Denotes lo v ∧ Operator.le.Denotes hi v

@[simp] theorem mem_agreeing_nil (v : Version) : v ∈ Agreeing [] := List.nil_prefix

@[simp] theorem mem_agreeing_one {v : Version} {a : Nat} : v ∈ Agreeing [a] ↔ v.major = a := by
  simp [Agreeing, Version.components, eq_comm]

@[simp] theorem mem_agreeing_two {v : Version} {a b : Nat} :
    v ∈ Agreeing [a, b] ↔ v.major = a ∧ v.minor = b := by
  simp [Agreeing, Version.components, eq_comm]

@[simp] theorem mem_agreeing_three {v : Version} {a b c : Nat} :
    v ∈ Agreeing [a, b, c] ↔ v.major = a ∧ v.minor = b ∧ v.patch = c := by
  simp [Agreeing, Version.components, eq_comm]

theorem length_cases {written : List Nat} (h : written.length ≤ 3) :
    written = [] ∨ (∃ a, written = [a]) ∨ (∃ a b, written = [a, b]) ∨
      ∃ a b c, written = [a, b, c] := by
  match written, h with
  | [], _ => exact .inl rfl
  | [a], _ => exact .inr (.inl ⟨a, rfl⟩)
  | [a, b], _ => exact .inr (.inr (.inl ⟨a, b, rfl⟩))
  | [a, b, c], _ => exact .inr (.inr (.inr ⟨a, b, c, rfl⟩))

theorem isLeast_leastOf {written : List Nat} (h : written.length ≤ 3) :
    IsLeast (Agreeing written) (leastOf written) := by
  rcases length_cases h with rfl | ⟨a, rfl⟩ | ⟨a, b, rfl⟩ | ⟨a, b, c, rfl⟩
  · exact ⟨by simp, fun v _ => by simp [leastOf, Version.le_iff]; omega⟩
  · refine ⟨by simp [leastOf], fun v hv => ?_⟩
    simp only [mem_agreeing_one] at hv
    simp [leastOf, Version.le_iff]
    omega
  · refine ⟨by simp [leastOf], fun v hv => ?_⟩
    simp only [mem_agreeing_two] at hv
    simp [leastOf, Version.le_iff]
    omega
  · refine ⟨by simp [leastOf], fun v hv => ?_⟩
    simp only [mem_agreeing_three] at hv
    simp [leastOf, Version.le_iff]
    omega

theorem lt_of_not_agreeing {written : List Nat} (h : written.length ≤ 3) {v w : Version}
    (hw : w ∈ Agreeing written) (hv : v ∉ Agreeing written) (hLeast : leastOf written ≤ v) : w < v := by
  rw [Version.le_iff] at hLeast
  rw [Version.lt_iff]
  rcases length_cases h with rfl | ⟨a, rfl⟩ | ⟨a, b, rfl⟩ | ⟨a, b, c, rfl⟩
  · simp at hv
  · simp [leastOf] at hw hv hLeast
    omega
  · simp [leastOf] at hw hv hLeast
    omega
  · simp [leastOf] at hw hv hLeast
    omega

theorem ge_denotes_iff {written : List Nat} (h : written.length ≤ 3) {v : Version} :
    Operator.ge.Denotes written v ↔ leastOf written ≤ v := by
  have hLeast := isLeast_leastOf h
  constructor
  · rintro ⟨least, hIs, hLe⟩
    exact hIs.unique hLeast ▸ hLe
  · exact fun hLe => ⟨_, hLeast, hLe⟩

theorem lt_denotes_iff {written : List Nat} (h : written.length ≤ 3) {v : Version} :
    Operator.lt.Denotes written v ↔ v < leastOf written :=
  ⟨fun hAll => hAll _ (isLeast_leastOf h).1, fun hLt _ hw => hLt.trans_le ((isLeast_leastOf h).2 hw)⟩

theorem gt_denotes_iff {written : List Nat} (h : written.length ≤ 3) {v : Version} :
    Operator.gt.Denotes written v ↔ leastOf written ≤ v ∧ v ∉ Agreeing written := by
  constructor
  · exact fun hAll => ⟨(hAll _ (isLeast_leastOf h).1).le, fun hv => lt_irrefl v (hAll v hv)⟩
  · rintro ⟨hLeast, hv⟩ w hw
    exact lt_of_not_agreeing h hw hv hLeast

theorem le_denotes_iff {written : List Nat} (h : written.length ≤ 3) {v : Version} :
    Operator.le.Denotes written v ↔ v < leastOf written ∨ v ∈ Agreeing written := by
  have hNot : Operator.le.Denotes written v ↔ ¬Operator.gt.Denotes written v := by
    simp [Operator.Denotes]
  rw [hNot, gt_denotes_iff h, not_and_or, not_le, not_not]

/-! ## Desugaring keeps the meaning -/

/-- The partial version with the given components written. -/
def Partial.ofWritten (written : List Nat) : Partial := ⟨written[0]?, written[1]?, written[2]?⟩

/-- A desugared comparator holds of the versions its operator denotes. -/
def Expands (expanded : Option (List (Op × Version))) (meaning : Version → Prop) : Prop :=
  ∀ v, (∃ comparators, expanded = some comparators ∧ ∀ c ∈ comparators, c.1.Holds v c.2) ↔ meaning v

theorem expands_some {comparators : List (Op × Version)} {meaning : Version → Prop} :
    Expands (some comparators) meaning ↔ ∀ v, (∀ c ∈ comparators, c.1.Holds v c.2) ↔ meaning v := by
  simp [Expands]

theorem tilde_denotes_iff {written : List Nat} (h : written.length ≤ 3) {v : Version} :
    Operator.tilde.Denotes written v ↔ leastOf written ≤ v ∧ v ∈ Agreeing (written.take 2) :=
  and_congr_left' (ge_denotes_iff h)

theorem caret_denotes_iff {written : List Nat} (h : written.length ≤ 3) {v : Version} :
    Operator.caret.Denotes written v ↔ leastOf written ≤ v ∧ v ∈ Agreeing (upToNonzero written) :=
  and_congr_left' (ge_denotes_iff h)

theorem expands_exact {written : List Nat} (h : written.length ≤ 3) :
    Expands (desugar .exact (.ofWritten written)) (Operator.exact.Denotes written) := by
  rcases length_cases h with rfl | ⟨a, rfl⟩ | ⟨a, b, rfl⟩ | ⟨a, b, c, rfl⟩
  · simp [desugar, Partial.ofWritten, Operator.Denotes, expands_some]
  · simp [desugar, Partial.ofWritten, Operator.Denotes, expands_some, Op.Holds, Version.le_iff,
      Version.lt_iff]
    omega
  · simp [desugar, Partial.ofWritten, Operator.Denotes, expands_some, Op.Holds, Version.le_iff,
      Version.lt_iff]
    omega
  · simp [desugar, Partial.ofWritten, Operator.Denotes, expands_some, Op.Holds, Version.ext_iff]

theorem expands_ge {written : List Nat} (h : written.length ≤ 3) :
    Expands (desugar .ge (.ofWritten written)) (Operator.ge.Denotes written) := by
  have hGe (v : Version) := ge_denotes_iff (v := v) h
  rcases length_cases h with rfl | ⟨a, rfl⟩ | ⟨a, b, rfl⟩ | ⟨a, b, c, rfl⟩
  · simp [desugar, Partial.ofWritten, expands_some, hGe, leastOf, Version.le_iff]
    omega
  all_goals simp [desugar, Partial.ofWritten, expands_some, hGe, leastOf, Op.Holds]

theorem expands_lt {written : List Nat} (h : written.length ≤ 3) :
    Expands (desugar .lt (.ofWritten written)) (Operator.lt.Denotes written) := by
  have hLt (v : Version) := lt_denotes_iff (v := v) h
  rcases length_cases h with rfl | ⟨a, rfl⟩ | ⟨a, b, rfl⟩ | ⟨a, b, c, rfl⟩
  · simp [desugar, Partial.ofWritten, Expands, hLt, leastOf, Version.lt_iff]
  all_goals simp [desugar, Partial.ofWritten, expands_some, hLt, leastOf, Op.Holds]

theorem expands_gt {written : List Nat} (h : written.length ≤ 3) :
    Expands (desugar .gt (.ofWritten written)) (Operator.gt.Denotes written) := by
  have hGt (v : Version) := gt_denotes_iff (v := v) h
  rcases length_cases h with rfl | ⟨a, rfl⟩ | ⟨a, b, rfl⟩ | ⟨a, b, c, rfl⟩
  · simp [desugar, Partial.ofWritten, Expands, hGt]
  all_goals
    simp [desugar, Partial.ofWritten, expands_some, hGt, leastOf, Op.Holds, Version.le_iff,
      Version.lt_iff]
    omega

theorem expands_le {written : List Nat} (h : written.length ≤ 3) :
    Expands (desugar .le (.ofWritten written)) (Operator.le.Denotes written) := by
  have hLe (v : Version) := le_denotes_iff (v := v) h
  rcases length_cases h with rfl | ⟨a, rfl⟩ | ⟨a, b, rfl⟩ | ⟨a, b, c, rfl⟩
  · simp [desugar, Partial.ofWritten, expands_some, hLe]
  all_goals
    simp [desugar, Partial.ofWritten, expands_some, hLe, leastOf, Op.Holds, Version.le_iff,
      Version.lt_iff]
    omega

theorem expands_tilde {written : List Nat} (h : written.length ≤ 3) :
    Expands (desugar .tilde (.ofWritten written)) (Operator.tilde.Denotes written) := by
  have hTilde (v : Version) := tilde_denotes_iff (v := v) h
  rcases length_cases h with rfl | ⟨a, rfl⟩ | ⟨a, b, rfl⟩ | ⟨a, b, c, rfl⟩
  all_goals
    simp [desugar, Partial.ofWritten, expands_some, hTilde, leastOf, Op.Holds, Version.le_iff,
      Version.lt_iff]
    omega

theorem upToNonzero_one (a : Nat) : upToNonzero [a] = [a] := by
  by_cases ha : a = 0 <;> simp [upToNonzero, List.findIdx_cons, ha]

theorem upToNonzero_two (a b : Nat) : upToNonzero [a, b] = if a = 0 then [a, b] else [a] := by
  by_cases ha : a = 0 <;> by_cases hb : b = 0 <;> simp [upToNonzero, List.findIdx_cons, ha, hb]

theorem upToNonzero_three (a b c : Nat) :
    upToNonzero [a, b, c] = if a = 0 then (if b = 0 then [a, b, c] else [a, b]) else [a] := by
  by_cases ha : a = 0 <;> by_cases hb : b = 0 <;> by_cases hc : c = 0 <;>
    simp [upToNonzero, List.findIdx_cons, ha, hb, hc]

theorem expands_caret {written : List Nat} (h : written.length ≤ 3) :
    Expands (desugar .caret (.ofWritten written)) (Operator.caret.Denotes written) := by
  have hCaret (v : Version) := caret_denotes_iff (v := v) h
  rcases length_cases h with rfl | ⟨a, rfl⟩ | ⟨a, b, rfl⟩ | ⟨a, b, c, rfl⟩
  · simp [desugar, Partial.ofWritten, expands_some, hCaret, leastOf, upToNonzero, Version.le_iff]
    omega
  · simp [desugar, Partial.ofWritten, expands_some, hCaret, leastOf, upToNonzero_one, Op.Holds,
      Version.le_iff, Version.lt_iff]
    omega
  · rcases eq_or_ne a 0 with rfl | ha
    · simp [desugar, Partial.ofWritten, expands_some, hCaret, upToNonzero_two, leastOf, Op.Holds,
        Version.le_iff, Version.lt_iff]
      omega
    · simp [desugar, Partial.ofWritten, expands_some, hCaret, upToNonzero_two, ha, leastOf, Op.Holds,
        Version.le_iff, Version.lt_iff]
      omega
  · rcases eq_or_ne a 0 with rfl | ha
    · rcases eq_or_ne b 0 with rfl | hb
      · simp [desugar, Partial.ofWritten, expands_some, hCaret, upToNonzero_three, leastOf, Op.Holds,
          Version.le_iff, Version.lt_iff]
        omega
      · simp [desugar, Partial.ofWritten, expands_some, hCaret, upToNonzero_three, hb, leastOf,
          Op.Holds, Version.le_iff, Version.lt_iff]
        omega
    · simp [desugar, Partial.ofWritten, expands_some, hCaret, upToNonzero_three, ha, leastOf,
        Op.Holds, Version.le_iff, Version.lt_iff]
      omega

theorem expands_desugar {written : List Nat} (h : written.length ≤ 3) (op : Operator) :
    Expands (desugar op (.ofWritten written)) (op.Denotes written) := by
  cases op with
  | exact => exact expands_exact h
  | ge => exact expands_ge h
  | gt => exact expands_gt h
  | le => exact expands_le h
  | lt => exact expands_lt h
  | tilde => exact expands_tilde h
  | caret => exact expands_caret h

theorem expands_hyphen {lo hi : List Nat} (hLo : lo.length ≤ 3) (hHi : hi.length ≤ 3) :
    Expands (some (hyphen (.ofWritten lo) (.ofWritten hi))) (HyphenDenotes lo hi) := by
  rw [expands_some]
  intro v
  rw [hyphen, HyphenDenotes, List.forall_mem_append]
  refine and_congr ?_ ?_
  · have hGe := expands_desugar hLo .ge v
    rw [← hGe]
    rcases length_cases hLo with rfl | ⟨a, rfl⟩ | ⟨a, b, rfl⟩ | ⟨a, b, c, rfl⟩ <;>
      simp [desugar, Partial.ofWritten]
  · have hLe := expands_desugar hHi .le v
    rw [← hLe]
    rcases length_cases hHi with rfl | ⟨a, rfl⟩ | ⟨a, b, rfl⟩ | ⟨a, b, c, rfl⟩ <;>
      simp [desugar, Partial.ofWritten]

end Bajutsu.Devices
