import Bajutsu.Devices.RunPlan

/-!
# The majors of a version range

A bounded side names a major where some version of that major is in it, and only there: the first major has the least
version that the lower bound admits, and any later one has its `M.0.0`.
-/

namespace Bajutsu.Devices

open PyValue

/-- The least version that a lower bound admits. -/
def Bound.least (lo : Bound) : Version :=
  if lo.inclusive then lo.version else ⟨lo.version.major, lo.version.minor, lo.version.patch + 1⟩

theorem Bound.least_major (lo : Bound) : lo.least.major = lo.version.major := by
  rw [Bound.least]
  split <;> rfl

theorem above_iff_least {lo : Bound} {v : Version} : Above v (some lo) ↔ lo.least ≤ v := by
  rw [above_some, Bound.least]
  split
  · exact Iff.rfl
  · rw [Version.lt_iff, Version.le_iff]
    dsimp only
    omega

theorem below_least_iff {lo hi : Bound} : Below lo.least (some hi) ↔ emptyBetween lo hi = false := by
  rw [below_some, emptyBetween, ← Bound.least]
  cases hi.inclusive with
  | true => simp
  | false =>
    simp only [Bool.false_eq_true, if_false, Bool.not_false, and_true, decide_eq_false_iff_not, not_or, not_lt]
    exact lt_iff_le_and_ne

/-- The major after the last. -/
def Bound.stop (hi : Bound) : Nat :=
  if !hi.inclusive && hi.version = ⟨hi.version.major, 0, 0⟩ then hi.version.major else hi.version.major + 1

theorem Bound.lt_stop_of_below {hi : Bound} {v : Version} (h : Below v (some hi)) : v.major < hi.stop := by
  rw [below_some] at h
  rw [Bound.stop]
  cases hInclusive : hi.inclusive with
  | true =>
    rw [hInclusive, if_pos rfl, Version.le_iff] at h
    simp only [Bool.not_true, Bool.false_and, Bool.false_eq_true, if_false]
    omega
  | false =>
    rw [hInclusive, if_neg Bool.false_ne_true, Version.lt_iff] at h
    simp only [Bool.not_false, Bool.true_and, decide_eq_true_eq, Version.ext_iff, true_and]
    split <;> omega

theorem Bound.below_of_lt_stop {hi : Bound} {m : Nat} (h : m < hi.stop) : Below ⟨m, 0, 0⟩ (some hi) := by
  rw [Bound.stop] at h
  rw [below_some]
  cases hInclusive : hi.inclusive with
  | true =>
    simp only [hInclusive, Bool.not_true, Bool.false_and, Bool.false_eq_true, if_false] at h
    rw [if_pos rfl, Version.le_iff]
    simp only
    omega
  | false =>
    simp only [hInclusive, Bool.not_false, Bool.true_and, decide_eq_true_eq, Version.ext_iff, true_and] at h
    rw [if_neg Bool.false_ne_true, Version.lt_iff]
    simp only
    split at h <;> omega

/-- The majors of a bounded side are ascending, and are those of the versions in it. -/
theorem VersionRange.majors_eq {range : VersionRange} (hWellFormed : range.WellFormed)
    (hBounded : range.bounded = true) :
    ∃ ms, range.majors = .ok ms ∧ ∀ m, m ∈ ms ↔ ∃ v, v.major = m ∧ range.contains v = true := by
  cases hEmpty : range.empty with
  | true =>
    refine ⟨[], by rw [VersionRange.majors, hEmpty]; rfl, fun m => iff_of_false List.not_mem_nil ?_⟩
    rintro ⟨v, -, hContains⟩
    rw [contains_iff, hEmpty] at hContains
    exact Bool.false_ne_true hContains.left.symm
  | false =>
    simp only [VersionRange.bounded, hEmpty, Bool.false_or, Bool.and_eq_true, Option.isSome_iff_exists] at hBounded
    obtain ⟨⟨lo, hLower⟩, hi, hUpper⟩ := hBounded
    have hMeet : Below lo.least (some hi) := below_least_iff.mpr (hWellFormed hEmpty lo hi hLower hUpper)
    refine ⟨List.range' lo.version.major (hi.stop - lo.version.major),
      by simp only [VersionRange.majors, hEmpty, hLower, hUpper]; rfl, fun m => ?_⟩
    rw [List.mem_range'_1]
    simp only [contains_iff, hEmpty, hLower, hUpper, true_and]
    have hStop : lo.version.major < hi.stop := lo.least_major ▸ Bound.lt_stop_of_below hMeet
    constructor
    · rintro ⟨hFirst, hLast⟩
      by_cases hIs : m = lo.version.major
      · exact ⟨lo.least, lo.least_major.trans hIs.symm, above_iff_least.mpr le_rfl, hMeet⟩
      · refine ⟨⟨m, 0, 0⟩, rfl, above_iff_least.mpr ?_, Bound.below_of_lt_stop (by omega)⟩
        have hMajor := lo.least_major
        rw [Version.le_iff]
        simp only
        omega
    · rintro ⟨v, rfl, hAbove, hBelow⟩
      have hLeast := above_iff_least.mp hAbove
      have hMajor := lo.least_major
      have hLast := Bound.lt_stop_of_below hBelow
      rw [Version.le_iff] at hLeast
      omega

/-- The majors of a range are ascending, and are those of the versions in its bounded sides. -/
theorem VersionSpec.majors_eq {spec : VersionSpec} (h : ∀ alt ∈ spec.alternatives, alt.WellFormed) :
    ∃ ms, spec.majors = .ok ms ∧ ms.Pairwise (· < ·) ∧
      ∀ m, m ∈ ms ↔ ∃ alt ∈ spec.alternatives, alt.bounded = true ∧ ∃ v, v.major = m ∧ alt.contains v = true := by
  have hMajors : ∀ alt ∈ spec.alternatives.filter VersionRange.bounded,
      alt.majors = .ok (alt.majors.toOption.getD []) ∧
        ∀ m, m ∈ alt.majors.toOption.getD [] ↔ ∃ v, v.major = m ∧ alt.contains v = true := by
    intro alt hAlt
    obtain ⟨hMem, hBounded⟩ := List.mem_filter.mp hAlt
    obtain ⟨ms, hOk, hMem⟩ := VersionRange.majors_eq (h alt hMem) hBounded
    rw [hOk]
    exact ⟨rfl, hMem⟩
  refine ⟨_, by rw [VersionSpec.majors, mapM_eq_ok fun alt hAlt => (hMajors alt hAlt).1]; rfl, ?_, fun m => ?_⟩
  · exact Finset.sortedLT_sort _ |>.pairwise
  · rw [Finset.mem_sort, List.mem_toFinset, List.mem_flatten]
    constructor
    · rintro ⟨ms, hMs, hm⟩
      obtain ⟨alt, hAlt, rfl⟩ := List.mem_map.mp hMs
      obtain ⟨hMem, hBounded⟩ := List.mem_filter.mp hAlt
      exact ⟨alt, hMem, hBounded, ((hMajors alt hAlt).2 m).mp hm⟩
    · rintro ⟨alt, hMem, hBounded, hSome⟩
      have hAlt := List.mem_filter.mpr ⟨hMem, hBounded⟩
      exact ⟨_, List.mem_map_of_mem hAlt, ((hMajors alt hAlt).2 m).mpr hSome⟩

/-- What is parsed names the majors of the versions that its bounded sides contain. -/
theorem parsed_majors_iff {text : String} {spec : VersionSpec} (h : VersionSpec.parse text = .ok spec) :
    ∃ ms, spec.majors = .ok ms ∧ ms.Pairwise (· < ·) ∧
      ∀ m, m ∈ ms ↔ ∃ alt ∈ spec.alternatives, alt.bounded = true ∧ ∃ v, v.major = m ∧ alt.contains v = true :=
  VersionSpec.majors_eq (parse_cases h).right

/-- A range with a sliver between its bounds, and one without. -/
theorem parsed_majors_sliver :
    ∃ spec, VersionSpec.parse ">18.9.0 <18.9.1 || >=17 <19" = .ok spec ∧
      ∃ ms, spec.majors = .ok ms ∧ ms.Pairwise (· < ·) ∧
        ∀ m, m ∈ ms ↔ ∃ alt ∈ spec.alternatives, alt.bounded = true ∧ ∃ v, v.major = m ∧ alt.contains v = true := by
  have hParse : VersionSpec.parse ">18.9.0 <18.9.1 || >=17 <19" = .ok ⟨">18.9.0 <18.9.1 || >=17 <19",
      [⟨some ⟨⟨18, 9, 0⟩, false⟩, some ⟨⟨18, 9, 1⟩, false⟩, true⟩, ⟨some ⟨⟨17, 0, 0⟩, true⟩, some ⟨⟨19, 0, 0⟩, false⟩, false⟩]⟩ := rfl
  exact ⟨_, hParse, parsed_majors_iff hParse⟩

end Bajutsu.Devices
