import Bajutsu.Drivers.Selector
import Bajutsu.Lib.Raising

/-!
# Selectors whose pattern is refused

A selector is resolved without its pattern being looked at unless an element comes to it. Where one does and the pattern
is no regular expression, resolving raises what compiling the pattern raises.
-/

namespace Bajutsu.Drivers

open Raising

section Patterns

variable {N : Type}
variable (fnmatchcase : String → String → Bool) (compile : String → Option (String → Bool))
variable (elements : List (Element N))

/-- An element with a label comes to the pattern of the selector, or of one it is scoped by, and it does not compile. -/
inductive PatternReached : Selector → Prop
  | here {sel : Selector} {el : Element N} {pattern label : String} (hEl : el ∈ elements) (hId : idHolds el sel = true)
    (hGlob : idMatchesHolds fnmatchcase el sel = true) (hSame : sel.label = none ∨ el.label = sel.label)
    (hLabel : el.label = some label) (hPattern : sel.labelMatches = some pattern) (hBad : compile pattern = none) :
    PatternReached sel
  | within {sel parent : Selector} (hWithin : sel.within = some parent) (hParent : PatternReached parent) :
    PatternReached sel

variable {fnmatchcase : String → String → Bool} {compile : String → Option (String → Bool)}
variable {elements : List (Element N)} {sel : Selector}

theorem raises_matchesSelector {el : Element N} : Raises (matchesSelector fnmatchcase compile el sel) ↔
    idHolds el sel = true ∧ idMatchesHolds fnmatchcase el sel = true ∧ (sel.label = none ∨ el.label = sel.label) ∧
      ∃ label pattern, el.label = some label ∧ sel.labelMatches = some pattern ∧ compile pattern = none := by
  constructor
  · rintro ⟨e, h⟩
    rw [matchesSelector] at h
    split at h
    · cases h
    rename_i hIds
    split at h
    · cases h
    rename_i hLabels
    split at h
    · cases h
    · cases h
    rename_i pattern label hPattern hLabel
    split at h
    · rename_i hBad
      simp only [Bool.or_eq_true, Bool.not_eq_true', not_or, Bool.not_eq_false] at hIds
      refine ⟨hIds.1, hIds.2, ?_, label, pattern, hLabel, hPattern, hBad⟩
      cases hSel : sel.label with
      | none => exact .inl rfl
      | some text => simpa [hSel] using hLabels
    · cases h
  · rintro ⟨hId, hGlob, hSame, label, pattern, hLabel, hPattern, hBad⟩
    refine ⟨.invalidPattern pattern, ?_⟩
    have hLabels : ¬(sel.label.isSome && decide (el.label ≠ sel.label)) = true := by
      obtain hNone | hSame := hSame
      · simp [hNone]
      · simp [hSame]
    rw [matchesSelector, hId, hGlob, if_neg (by simp), if_neg hLabels]
    simp [hPattern, hLabel, hBad]

theorem raises_scan {holds : Element N → Except ResolveError Bool} :
    Raises (scan holds elements) ↔ ∃ el ∈ elements, Raises (holds el) := by
  obtain ⟨el, e, hMem, hError, hScan⟩ | ⟨hAll, hScan⟩ := scan_cases holds elements
  · exact iff_of_true ⟨e, hScan⟩ ⟨el, hMem, e, hError⟩
  · refine iff_of_false ?_ ?_
    · rintro ⟨e, h⟩
      cases hScan.symm.trans h
    · rintro ⟨el, hMem, hRaises⟩
      exact not_raises_iff.mpr (hAll el hMem) hRaises

theorem pick_error {candidates : List (Element N)} {e : ResolveError} (h : pick sel candidates = .error e) :
    e.exceptionClass ≠ .patternError := by
  unfold pick at h
  split at h
  · split at h
    · cases h
      exact nofun
    · cases h
  · split at h
    · cases h
      exact nofun
    · cases h
    · cases h
      exact nofun

variable [Add N] [LE N] [DecidableLE N]

theorem raises_findAll : Raises (findAll fnmatchcase compile elements sel) ↔
    PatternReached fnmatchcase compile elements sel := by
  have hBase (sel : Selector) : Raises (baseMatches fnmatchcase compile elements sel) ↔
      ∃ el ∈ elements, Raises (matchesSelector fnmatchcase compile el sel) := by
    rw [baseMatches_eq_scan]
    exact raises_scan
  constructor
  · intro h
    induction hSize : sizeOf sel using Nat.strong_induction_on generalizing sel with
    | _ n ih =>
      rw [findAll_eq] at h
      obtain hHere | ⟨found, -, hScoped⟩ := raises_bind.mp h
      · obtain ⟨el, hMem, hRaises⟩ := (hBase sel).mp hHere
        obtain ⟨hId, hGlob, hSame, label, pattern, hLabel, hPattern, hBad⟩ := raises_matchesSelector.mp hRaises
        exact .here hMem hId hGlob hSame hLabel hPattern hBad
      · cases hWithin : sel.within with
        | none =>
          rw [hWithin] at hScoped
          exact absurd hScoped (not_raises_ok _)
        | some parent =>
          rw [hWithin] at hScoped
          obtain hParent | ⟨scopes, -, hFilter⟩ := raises_bind.mp hScoped
          · have hLess : sizeOf parent < n := by
              obtain ⟨_, _, _, _, _, _, within, _⟩ := sel
              cases hWithin
              simp at hSize
              omega
            exact .within hWithin (ih (sizeOf parent) hLess hParent rfl)
          · exact absurd hFilter (not_raises_ok _)
  · intro h
    induction h with
    | @here sel el pattern label hEl hId hGlob hSame hLabel hPattern hBad =>
      rw [findAll_eq]
      refine raises_bind.mpr (.inl ((hBase sel).mpr ⟨el, hEl, ?_⟩))
      exact raises_matchesSelector.mpr ⟨hId, hGlob, hSame, label, pattern, hLabel, hPattern, hBad⟩
    | @within sel parent hWithin _ ih =>
      rw [findAll_eq, hWithin]
      cases hFound : baseMatches fnmatchcase compile elements sel with
      | error e => exact raises_error e
      | ok found => exact raises_bind.mpr (.inr ⟨found, rfl, raises_bind.mpr (.inl ih)⟩)

theorem findAll_error {e : ResolveError} (h : findAll fnmatchcase compile elements sel = .error e) :
    e.exceptionClass = .patternError := by
  induction hSize : sizeOf sel using Nat.strong_induction_on generalizing sel with
  | _ n ih =>
    rw [findAll_eq] at h
    obtain hHere | ⟨found, -, hScoped⟩ := PyValue.bind_eq_error.mp h
    · rw [baseMatches_eq_scan] at hHere
      obtain ⟨el, e', -, hError, hScan⟩ | ⟨-, hScan⟩ :=
        scan_cases (fun el => matchesSelector fnmatchcase compile el sel) elements
      · obtain ⟨pattern, -, rfl⟩ := matchesSelector_error hError
        cases hScan.symm.trans hHere
        rfl
      · cases hScan.symm.trans hHere
    · cases hWithin : sel.within with
      | none =>
        rw [hWithin] at hScoped
        cases hScoped
      | some parent =>
        rw [hWithin] at hScoped
        obtain hParent | ⟨scopes, -, hFilter⟩ := PyValue.bind_eq_error.mp hScoped
        · have hLess : sizeOf parent < n := by
            obtain ⟨_, _, _, _, _, _, within, _⟩ := sel
            cases hWithin
            simp at hSize
            omega
          exact ih (sizeOf parent) hLess hParent rfl
        · cases hFilter

variable [DecidableEq N]

theorem resolveUnique_pattern_iff : (∃ e, resolveUnique fnmatchcase compile elements sel = .error e ∧
    e.exceptionClass = .patternError) ↔ PatternReached fnmatchcase compile elements sel := by
  rw [← raises_findAll, resolveUnique]
  cases hFound : findAll fnmatchcase compile elements sel with
  | error e => exact iff_of_true ⟨e, rfl, findAll_error hFound⟩ (raises_error e)
  | ok found =>
    refine iff_of_false ?_ (not_raises_ok found)
    rintro ⟨e, h, hClass⟩
    exact pick_error h hClass

end Patterns

/-! ## What a refused pattern finds -/

/-- The patterns of a selector and of those it is scoped by. -/
inductive Selector.HasPattern (pattern : String) : Selector → Prop
  | here {sel : Selector} (hPattern : sel.labelMatches = some pattern) : HasPattern pattern sel
  | within {sel parent : Selector} (hWithin : sel.within = some parent) (hParent : HasPattern pattern parent) :
    HasPattern pattern sel

section Refused

variable {N : Type} {fnmatchcase : String → String → Bool} {compile : String → Option (String → Bool)}
variable {elements : List (Element N)} {sel : Selector} {pattern : String}

theorem matchesSelector_refused {el : Element N} (hPattern : sel.labelMatches = some pattern)
    (hBad : compile pattern = none) : matchesSelector fnmatchcase compile el sel ≠ .ok true := by
  rw [matchesSelector, hPattern]
  intro h
  split at h
  · cases h
  split at h
  · cases h
  cases hLabel : el.label with
  | none =>
    rw [hLabel] at h
    cases h
  | some label =>
    rw [hLabel] at h
    simp only [hBad] at h
    cases h

theorem baseMatches_refused {found : List (Element N)} (hPattern : sel.labelMatches = some pattern)
    (hBad : compile pattern = none) (h : baseMatches fnmatchcase compile elements sel = .ok found) : found = [] := by
  rw [baseMatches_eq_scan] at h
  obtain ⟨_, e, -, -, hScan⟩ | ⟨hAll, hScan⟩ :=
    scan_cases (fun el => matchesSelector fnmatchcase compile el sel) elements
  · cases hScan.symm.trans h
  cases hScan.symm.trans h
  apply List.filter_eq_nil_iff.mpr
  intro el hMem hKept
  obtain ⟨keep, hKeep⟩ := hAll el hMem
  rw [hKeep] at hKept
  cases keep with
  | true => exact matchesSelector_refused hPattern hBad hKeep
  | false => simp [Except.toOption] at hKept

theorem pick_nil : ∃ e, pick sel ([] : List (Element N)) = .error e ∧ e.exceptionClass = .elementNotFound := by
  unfold pick
  split
  · rename_i i hIndex
    have hNth : nth ([] : List (Element N)) i = none := by
      apply if_neg
      simp only [List.length_nil]
      omega
    simp only [hNth]
    exact ⟨_, rfl, rfl⟩
  · exact ⟨_, rfl, rfl⟩

variable [Add N] [LE N] [DecidableLE N]

/-- A selector with a pattern that does not compile finds nothing, where it is resolved at all. -/
theorem findAll_refused {found : List (Element N)} (hPattern : sel.HasPattern pattern) (hBad : compile pattern = none)
    (h : findAll fnmatchcase compile elements sel = .ok found) : found = [] := by
  induction hPattern generalizing found with
  | here hPattern =>
    rw [findAll_eq] at h
    obtain ⟨base, hBase, h⟩ := PyValue.bind_eq_ok h
    obtain rfl := baseMatches_refused hPattern hBad hBase
    split at h
    · exact (Except.ok.inj h).symm
    · obtain ⟨scopes, -, h⟩ := PyValue.bind_eq_ok h
      exact (Except.ok.inj h).symm
  | within hWithin _ ih =>
    rw [findAll_eq, hWithin] at h
    obtain ⟨base, -, h⟩ := PyValue.bind_eq_ok h
    obtain ⟨scopes, hScopes, h⟩ := PyValue.bind_eq_ok h
    obtain rfl := ih hScopes
    cases h
    simp [inScopes]

variable [DecidableEq N]

theorem resolveUnique_refused (hPattern : sel.HasPattern pattern) (hBad : compile pattern = none) :
    ∃ e, resolveUnique fnmatchcase compile elements sel = .error e ∧ e.exceptionClass ≠ .ambiguousSelector := by
  rw [resolveUnique]
  cases hFound : findAll fnmatchcase compile elements sel with
  | error e =>
    refine ⟨e, rfl, ?_⟩
    rw [findAll_error hFound]
    rintro ⟨⟩
  | ok found =>
    obtain rfl := findAll_refused hPattern hBad hFound
    obtain ⟨e, hError, hClass⟩ := @pick_nil N sel
    refine ⟨e, hError, ?_⟩
    rw [hClass]
    rintro ⟨⟩

end Refused

end Bajutsu.Drivers
