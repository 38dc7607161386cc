import Bajutsu.Evidence.Golden
import Bajutsu.Lib.Raising

/-!
# Goldens that raise

Reading a golden raises at an entry that lacks what every element has. Comparing raises at traits that are not a
collection of hashable values, or that differ and cannot be sorted.
-/

namespace Bajutsu.Evidence.Golden

open PyValue Drivers Raising

/-- An entry that `_validate_element` accepts. -/
def ValidEntry (entry : String × Val) : Prop :=
  ∃ data, entry.2 = .dict data ∧ missingFields data = [] ∧
    (∃ x y w h, fieldOf data "frame" = .list [x, y, w, h]) ∧ fieldOf data "identifier" = .str entry.1

/-- Traits that `set` raises `TypeError` at, or `sorted`, which is called only where the traits differ. -/
def TraitsRefused (traits : Val) (actual : List String) : Prop :=
  match items traits with
  | .error _ => True
  | .ok xs => (∃ x ∈ xs, hashable x = false) ∨
      sameSet xs actual = false ∧ 1 < xs.length ∧ xs.all isStr = false ∧ xs.all isNumber = false

variable {builtins : Builtins}

theorem validateElement_ok {data : Val} {controlId : String} {el : GoldenElement}
    (h : validateElement builtins data controlId = .ok el) :
    ∃ fields, data = .dict fields ∧ el.traits = fieldOf fields "traits" := by
  unfold validateElement at h
  split at h
  · split at h
    · cases h
    split at h
    · split at h
      · cases h
        exact ⟨_, rfl, rfl⟩
      · cases h
    · cases h
  · cases h

theorem raises_validateElement {data : Val} {controlId : String} :
    Raises (validateElement builtins data controlId) ↔ ¬ValidEntry (controlId, data) := by
  unfold validateElement
  split
  · rename_i fields
    split
    · rename_i hMissing
      refine iff_of_true (raises_error _) ?_
      rintro ⟨_, hData, hNone, -⟩
      cases hData
      exact hMissing hNone
    rename_i hComplete
    split
    · rename_i x y w h hFrame
      split
      · rename_i hIdentifier
        refine iff_of_false (not_raises_ok _) (not_not_intro ?_)
        exact ⟨fields, rfl, not_not.mp hComplete, ⟨x, y, w, h, hFrame⟩, hIdentifier⟩
      · rename_i hIdentifier
        refine iff_of_true (raises_error _) ?_
        rintro ⟨_, hData, -, -, hSame⟩
        cases hData
        exact hIdentifier hSame
    · rename_i frame hFrame
      refine iff_of_true (raises_error _) ?_
      rintro ⟨_, hData, -, ⟨x, y, w, h, hSame⟩, -⟩
      cases hData
      exact hFrame x y w h hSame
  · rename_i hNotDict
    refine iff_of_true (raises_error _) ?_
    rintro ⟨fields, hData, -⟩
    exact hNotDict fields hData

theorem raises_loadEntry {entry : String × Val} :
    Raises (do
      let el ← validateElement builtins entry.2 entry.1
      .ok (entry.1, el) : Except Raised (String × GoldenElement)) ↔ ¬ValidEntry entry := by
  rw [raises_bind_ok (fun _ => not_raises_ok _), raises_validateElement]

theorem raises_loadGolden {raw : Val} : Raises (loadGolden builtins raw) ↔
    ∀ entries, raw = .dict entries → ∃ entry ∈ entries, ¬ValidEntry entry := by
  cases raw with
  | dict entries =>
    rw [loadGolden, raises_mapM]
    simp only [raises_loadEntry]
    constructor
    · intro h entries' hEq
      cases hEq
      exact h
    · exact fun h => h entries rfl
  | _ => exact iff_of_true (raises_error _) nofun

theorem setOf_of_items {traits : Val} {xs : List Val} (h : items traits = .ok xs) :
    setOf traits = if xs.all hashable then .ok xs else .error .typeError := by
  rw [setOf, h]
  rfl

theorem raises_setOf {traits : Val} {xs : List Val} (h : items traits = .ok xs) :
    Raises (setOf traits) ↔ ∃ x ∈ xs, hashable x = false := by
  rw [setOf_of_items h]
  split
  · rename_i hAll
    refine iff_of_false (not_raises_ok _) ?_
    rintro ⟨x, hMem, hNot⟩
    rw [List.all_eq_true.mp hAll x hMem] at hNot
    cases hNot
  · rename_i hSome
    refine iff_of_true (raises_error _) ?_
    simpa using hSome

theorem raises_sorted {traits : Val} {xs : List Val} (h : items traits = .ok xs) : Raises (sorted builtins traits) ↔
    1 < xs.length ∧ xs.all isStr = false ∧ xs.all isNumber = false := by
  have hSorted : sorted builtins traits =
      if xs.length ≤ 1 then .ok xs
      else if xs.all isStr then .ok ((sortedStr (xs.map text)).map .str)
      else if xs.all isNumber then .ok (builtins.sortNumbers xs)
      else .error .typeError := by
    rw [sorted, h]
    rfl
  rw [hSorted]
  split
  · refine iff_of_false (not_raises_ok _) ?_
    omega
  rename_i hLength
  split
  · rename_i hStr
    refine iff_of_false (not_raises_ok _) ?_
    rintro ⟨-, hNot, -⟩
    exact absurd (hStr.symm.trans hNot) nofun
  rename_i hStr
  split
  · rename_i hNumber
    refine iff_of_false (not_raises_ok _) ?_
    rintro ⟨-, -, hNot⟩
    exact absurd (hNumber.symm.trans hNot) nofun
  · rename_i hNumber
    exact iff_of_true (raises_error _) ⟨by omega, by simpa using hStr, by simpa using hNumber⟩

theorem raises_traitsMismatch {controlId : String} {traits : Val} {actual : List String} :
    Raises (traitsMismatch builtins controlId traits actual) ↔ TraitsRefused traits actual := by
  rw [traitsMismatch, raises_bind, TraitsRefused]
  cases hItems : items traits with
  | error e =>
    refine iff_of_true (.inl ⟨e, ?_⟩) trivial
    rw [setOf, hItems]
    rfl
  | ok xs =>
    dsimp only
    rw [raises_setOf hItems]
    by_cases hHashable : ∃ x ∈ xs, hashable x = false
    · exact iff_of_true (.inl hHashable) (.inl hHashable)
    rw [or_iff_right hHashable, or_iff_right hHashable]
    have hSet : setOf traits = .ok xs := by
      have hAll : xs.all hashable = true := by simpa using hHashable
      rw [setOf_of_items hItems, if_pos hAll]
    rw [hSet]
    simp only [Except.ok.injEq, exists_eq_left']
    split
    · rename_i hSame
      refine iff_of_false (not_raises_ok _) ?_
      rintro ⟨hDiffer, -⟩
      cases hSame.symm.trans hDiffer
    · rename_i hDiffer
      rw [raises_bind_ok (fun _ => not_raises_ok _), raises_sorted hItems]
      exact (and_iff_right (by simpa using hDiffer)).symm

section Compare

variable {N : Type}

theorem raises_compareElement {expected : GoldenElement} {actual : Element N} :
    Raises (compareElement builtins expected actual) ↔ TraitsRefused expected.traits actual.traits := by
  rw [compareElement, raises_bind_ok (fun _ => not_raises_ok _), raises_traitsMismatch]

variable [Add N] [Zero N] [LE N] [DecidableLE N]

theorem raises_compareEach {actualById : List (Option String × Element N)} {screen : Frame N}
    {golden : List (String × GoldenElement)} {result : GoldenResult} :
    Raises (compareEach builtins actualById screen golden result) ↔
      ∃ pinned ∈ golden, ∃ actual, get actualById (some pinned.1) = some actual ∧
        TraitsRefused pinned.2.traits actual.traits := by
  induction golden generalizing result with
  | nil => exact iff_of_false (not_raises_ok _) nofun
  | cons pinned rest ih =>
    obtain ⟨controlId, expected⟩ := pinned
    rw [List.exists_mem_cons_iff, compareEach]
    cases hActual : get actualById (some controlId) with
    | none =>
      rw [ih]
      exact (or_iff_right nofun).symm
    | some actual =>
      dsimp only
      rw [raises_bind]
      constructor
      · rintro (hHere | ⟨mismatches, -, hRest⟩)
        · exact .inl ⟨actual, rfl, raises_compareElement.mp hHere⟩
        · exact .inr (ih.mp hRest)
      · rintro (⟨_, hEq, hTraits⟩ | hRest)
        · cases hEq
          exact .inl (raises_compareElement.mpr hTraits)
        · cases hHere : compareElement builtins expected actual with
          | error e => exact .inl (raises_error e)
          | ok mismatches => exact .inr ⟨mismatches, rfl, ih.mpr hRest⟩

theorem raises_compareGolden {golden : List (String × GoldenElement)} {actual : List (Element N)} {screen : Frame N} :
    Raises (compareGolden builtins golden actual screen) ↔
      ∃ pinned ∈ golden, ∃ el, get (byId actual) (some pinned.1) = some el ∧ TraitsRefused pinned.2.traits el.traits :=
  raises_compareEach

theorem mem_loadGolden {entries : List (String × Val)} {golden : List (String × GoldenElement)}
    (h : loadGolden builtins (.dict entries) = .ok golden) {pinned : String × GoldenElement} (hMem : pinned ∈ golden) :
    ∃ fields, (pinned.1, Val.dict fields) ∈ entries ∧ pinned.2.traits = fieldOf fields "traits" := by
  obtain ⟨entry, hEntry, hLoad⟩ := exists_of_mapM_ok h pinned hMem
  obtain ⟨el, hValid, hOk⟩ := bind_eq_ok hLoad
  cases hOk
  obtain ⟨fields, hFields, hTraits⟩ := validateElement_ok hValid
  exact ⟨fields, hFields ▸ hEntry, hTraits⟩

theorem loadGolden_mem {entries : List (String × Val)} {golden : List (String × GoldenElement)}
    (h : loadGolden builtins (.dict entries) = .ok golden) {controlId : String} {fields : List (String × Val)}
    (hMem : (controlId, Val.dict fields) ∈ entries) :
    ∃ pinned ∈ golden, pinned.1 = controlId ∧ pinned.2.traits = fieldOf fields "traits" := by
  obtain ⟨pinned, hPinned, hLoad⟩ := exists_result h hMem
  obtain ⟨el, hValid, hOk⟩ := bind_eq_ok hLoad
  cases hOk
  obtain ⟨fields', hFields, hTraits⟩ := validateElement_ok hValid
  cases hFields
  exact ⟨(controlId, el), hPinned, rfl, hTraits⟩

theorem raises_load_and_compare {raw : Val} {actual : List (Element N)} {screen : Frame N} :
    Raises (loadGolden builtins raw >>= fun golden => compareGolden builtins golden actual screen) ↔
      ∀ entries, raw = .dict entries → (∃ entry ∈ entries, ¬ValidEntry entry) ∨
        ∃ controlId fields el, (controlId, Val.dict fields) ∈ entries ∧ get (byId actual) (some controlId) = some el ∧
          TraitsRefused (fieldOf fields "traits") el.traits := by
  rw [raises_bind, raises_loadGolden]
  cases raw with
  | dict entries =>
    simp only [Val.dict.injEq, forall_eq']
    by_cases hInvalid : ∃ entry ∈ entries, ¬ValidEntry entry
    · exact iff_of_true (.inl hInvalid) (.inl hInvalid)
    rw [or_iff_right hInvalid, or_iff_right hInvalid]
    constructor
    · rintro ⟨golden, hGolden, hRaises⟩
      obtain ⟨pinned, hPinned, el, hEl, hTraits⟩ := raises_compareGolden.mp hRaises
      obtain ⟨fields, hFields, hSame⟩ := mem_loadGolden hGolden hPinned
      exact ⟨pinned.1, fields, el, hFields, hEl, hSame ▸ hTraits⟩
    · rintro ⟨controlId, fields, el, hFields, hEl, hTraits⟩
      have hQuiet : ¬Raises (loadGolden builtins (.dict entries)) := by
        rw [raises_loadGolden]
        exact fun h => hInvalid (h entries rfl)
      obtain ⟨golden, hGolden⟩ := not_raises_iff.mp hQuiet
      obtain ⟨pinned, hPinned, rfl, hSame⟩ := loadGolden_mem hGolden hFields
      exact ⟨golden, hGolden, raises_compareGolden.mpr ⟨pinned, hPinned, el, hEl, hSame ▸ hTraits⟩⟩
  | _ => exact iff_of_true (.inl nofun) nofun

end Compare

end Bajutsu.Evidence.Golden
