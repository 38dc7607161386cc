import Bajutsu.Evidence.Golden

/-!
# What a golden comparison owes to the order of the snapshot

The elements that share an identifier are represented by the last of them, so a comparison is the same for every order
exactly when those elements read alike. A golden saved from a snapshot agrees with it in any case: the same elements
represent the others on both sides.
-/

namespace Bajutsu.Evidence.Golden
open PyValue Drivers

variable {N : Type} [Add N] [Zero N] [LE N] [DecidableLE N] {builtins : Builtins} {number : N → Val}

/-! ## Comparing with well-typed elements -/

def SameSet (expected actual : List String) : Prop := ∀ t, t ∈ expected ↔ t ∈ actual

theorem sameSet_iff {expected actual : List String} :
    sameSet (expected.map .str) actual = true ↔ SameSet expected actual := by
  simp only [sameSet, Bool.and_eq_true, List.all_eq_true, List.any_eq_true, List.mem_map, decide_eq_true_eq]
  constructor
  · rintro ⟨hLeft, hRight⟩ t
    constructor
    · intro ht
      obtain ⟨t', ht', hEq⟩ := hLeft (.str t) ⟨t, ht, rfl⟩
      cases hEq
      exact ht'
    · intro ht
      obtain ⟨_, ⟨t', ht', rfl⟩, hEq⟩ := hRight t ht
      cases hEq
      exact ht'
  · intro h
    constructor
    · rintro _ ⟨t, ht, rfl⟩
      exact ⟨t, (h t).mp ht, rfl⟩
    · intro t ht
      exact ⟨_, ⟨t, (h t).mpr ht, rfl⟩, rfl⟩

instance (expected actual : List String) : Decidable (SameSet expected actual) :=
  decidable_of_iff _ sameSet_iff

def traitsDiff (controlId : String) (expected actual : List String) : List FieldMismatch :=
  if SameSet expected actual then []
  else [⟨controlId, "traits", .tuple ((sortedStr expected).map .str), .tuple ((sortedStr actual).map .str)⟩]

theorem setOf_strs (texts : List String) : setOf (.list (texts.map .str)) = .ok (texts.map .str) := by
  change (if (texts.map Val.str).all hashable then _ else _) = _
  exact if_pos (List.all_eq_true.mpr fun x hx => by
    obtain ⟨t, -, rfl⟩ := List.mem_map.mp hx
    rfl)

theorem sorted_strs (texts : List String) :
    sorted builtins (.list (texts.map .str)) = .ok ((sortedStr texts).map .str) := by
  change (if (texts.map Val.str).length ≤ 1 then _ else _) = _
  split
  · rename_i hShort
    rw [List.length_map] at hShort
    match texts, hShort with
    | [], _ => rfl
    | [t], _ => rfl
  · rw [if_pos, List.map_map]
    · congr 3
      exact List.map_id texts
    · exact List.all_eq_true.mpr fun x hx => by
        obtain ⟨t, -, rfl⟩ := List.mem_map.mp hx
        rfl

theorem traitsMismatch_strs (controlId : String) (expected actual : List String) :
    traitsMismatch builtins controlId (.list (expected.map .str)) actual = .ok (traitsDiff controlId expected actual) := by
  rw [traitsMismatch, setOf_strs]
  change (if sameSet (expected.map Val.str) actual = true then _ else _) = _
  rw [traitsDiff]
  by_cases hSame : SameSet expected actual
  · rw [if_pos (sameSet_iff.mpr hSame), if_pos hSame]
  · rw [if_neg fun h => hSame (sameSet_iff.mp h), if_neg hSame, sorted_strs]
    rfl

/-- How an element reads against the one a golden pins. -/
def mismatchesOf (expected actual : Element N) : List FieldMismatch :=
  let controlId := (pinned (fun _ => .null) expected).controlId
  textMismatch controlId "identifier" (optStr expected.identifier) actual.identifier ++
    textMismatch controlId "label" (optStr expected.label) actual.label ++
    textMismatch controlId "value" (optStr expected.value) actual.value ++
    traitsDiff controlId expected.traits actual.traits

omit [Add N] [Zero N] [LE N] [DecidableLE N] in
theorem compareElement_pinned (expected actual : Element N) :
    compareElement builtins (pinned number expected) actual = .ok (mismatchesOf expected actual) := by
  rw [compareElement]
  change (traitsMismatch builtins _ (.list (expected.traits.map .str)) actual.traits >>= _) = _
  rw [traitsMismatch_strs]
  rfl

/-- What one pinned control adds to the result. -/
def contribution (actualById : List (Option String × Element N)) (screen : Frame N) (entry : String × Element N) :
    GoldenResult :=
  match get actualById (some entry.1) with
  | none => { missing := [entry.1] }
  | some actual =>
    { mismatches := mismatchesOf entry.2 actual
      frameFailures := if frameIsSane actual.frame screen then [] else [entry.1] }

/-- A golden of the elements given. -/
def pinAll (number : N → Val) (golden : List (String × Element N)) : List (String × GoldenElement) :=
  golden.map fun entry => (entry.1, pinned number entry.2)

theorem compareEach_pinAll (actualById : List (Option String × Element N)) (screen : Frame N)
    (golden : List (String × Element N)) (result : GoldenResult) :
    compareEach builtins actualById screen (pinAll number golden) result =
      .ok ⟨result.mismatches ++ golden.flatMap fun entry => (contribution actualById screen entry).mismatches,
        result.missing ++ golden.flatMap fun entry => (contribution actualById screen entry).missing,
        result.frameFailures ++ golden.flatMap fun entry => (contribution actualById screen entry).frameFailures⟩ := by
  induction golden generalizing result with
  | nil => simp [pinAll, compareEach]
  | cons entry golden ih =>
    rw [pinAll, List.map_cons, compareEach, ← pinAll]
    split
    · rename_i hNone
      rw [ih]
      simp [contribution, hNone]
    · rename_i actual hSome
      rw [compareElement_pinned]
      change compareEach builtins actualById screen (pinAll number golden) _ = _
      rw [ih]
      by_cases hSane : frameIsSane actual.frame screen
      · simp [contribution, hSome, hSane]
      · simp [contribution, hSome, hSane]

theorem compareGolden_pinAll (golden : List (String × Element N)) (actual : List (Element N)) (screen : Frame N) :
    compareGolden builtins (pinAll number golden) actual screen =
      .ok ⟨golden.flatMap fun entry => (contribution (byId actual) screen entry).mismatches,
        golden.flatMap fun entry => (contribution (byId actual) screen entry).missing,
        golden.flatMap fun entry => (contribution (byId actual) screen entry).frameFailures⟩ :=
  compareEach_pinAll _ _ _ _

/-! ## Elements that read alike -/

/-- Two lists of traits differ from the expected one in the same way, or in none. -/
def TraitsAlike (expected traits traits' : List String) : Prop :=
  (SameSet expected traits ∧ SameSet expected traits') ∨
    (¬SameSet expected traits ∧ ¬SameSet expected traits' ∧ traits.Perm traits')

structure ReadsAlike (expected e e' : Element N) (screen : Frame N) : Prop where
  label : e.label = e'.label
  value : e.value = e'.value
  traits : TraitsAlike expected.traits e.traits e'.traits
  sane : frameIsSane e.frame screen = frameIsSane e'.frame screen

theorem optStr_inj {a b : Option String} : optStr a = optStr b ↔ a = b := by
  cases a <;> cases b <;> simp [optStr]

theorem textMismatch_inj {controlId field : String} {expected a a' : Option String} :
    textMismatch controlId field (optStr expected) a = textMismatch controlId field (optStr expected) a' ↔ a = a' := by
  constructor
  · intro h
    rw [textMismatch, textMismatch] at h
    by_cases ha : optStr expected = optStr a
    · rw [if_pos ha] at h
      by_cases ha' : optStr expected = optStr a'
      · exact optStr_inj.mp (ha.symm.trans ha')
      · rw [if_neg ha'] at h
        cases h
    · rw [if_neg ha] at h
      split at h
      · cases h
      · injection h with h
        injection h with _ _ _ h
        exact optStr_inj.mp h
  · rintro rfl
    rfl

theorem sortedStr_inj {a b : List String} : sortedStr a = sortedStr b ↔ a.Perm b := by
  constructor
  · intro h
    have hSorted : (sortedStr a).Perm b := h ▸ List.perm_insertionSort _ b
    exact (List.perm_insertionSort _ a).symm.trans hSorted
  · intro h
    apply List.Perm.eq_of_sortedLE
    · exact List.sortedLE_insertionSort
    · exact List.sortedLE_insertionSort
    · exact (List.perm_insertionSort _ a).trans (h.trans (List.perm_insertionSort _ b).symm)

theorem traitsDiff_inj {controlId : String} {expected traits traits' : List String} :
    traitsDiff controlId expected traits = traitsDiff controlId expected traits' ↔
      TraitsAlike expected traits traits' := by
  rw [traitsDiff, traitsDiff, TraitsAlike]
  by_cases h : SameSet expected traits
  · by_cases h' : SameSet expected traits'
    · simp [h, h']
    · simp [h, h']
  · by_cases h' : SameSet expected traits'
    · simp [h, h']
    · rw [if_neg h, if_neg h', ← sortedStr_inj]
      simp [h, h', List.map_inj_right]

def fieldPart (field : String) (mismatches : List FieldMismatch) : List FieldMismatch :=
  mismatches.filter fun m => m.field = field

theorem fieldPart_text {controlId field field' : String} {expected : Val} {a : Option String} :
    fieldPart field (textMismatch controlId field' expected a) =
      if field' = field then textMismatch controlId field' expected a else [] := by
  rw [fieldPart, textMismatch]
  by_cases hEq : expected = optStr a
  · simp [hEq]
  · by_cases hField : field' = field
    · simp [hEq, hField]
    · simp [hEq, hField]

theorem fieldPart_traits {controlId field : String} {expected traits : List String} :
    fieldPart field (traitsDiff controlId expected traits) =
      if "traits" = field then traitsDiff controlId expected traits else [] := by
  rw [fieldPart, traitsDiff]
  by_cases hSame : SameSet expected traits
  · simp [hSame]
  · by_cases hField : "traits" = field
    · simp [hSame, hField]
    · simp [hSame, hField]

omit [Add N] [Zero N] [LE N] [DecidableLE N] in
theorem fieldPart_mismatchesOf (field : String) (expected e : Element N) :
    fieldPart field (mismatchesOf expected e) =
      let controlId := (pinned (fun _ => .null) expected).controlId
      (if "identifier" = field then textMismatch controlId "identifier" (optStr expected.identifier) e.identifier else []) ++
      (if "label" = field then textMismatch controlId "label" (optStr expected.label) e.label else []) ++
      (if "value" = field then textMismatch controlId "value" (optStr expected.value) e.value else []) ++
      if "traits" = field then traitsDiff controlId expected.traits e.traits else [] := by
  simp only [← fieldPart_text, ← fieldPart_traits, mismatchesOf, fieldPart, List.filter_append]

theorem readsAlike_iff {expected e e' : Element N} {screen : Frame N} (hId : e.identifier = e'.identifier) :
    ReadsAlike expected e e' screen ↔
      mismatchesOf expected e = mismatchesOf expected e' ∧ frameIsSane e.frame screen = frameIsSane e'.frame screen := by
  constructor
  · rintro ⟨hLabel, hValue, hTraits, hSane⟩
    refine ⟨?_, hSane⟩
    rw [mismatchesOf, mismatchesOf, hId, hLabel, hValue, traitsDiff_inj.mpr hTraits]
  · rintro ⟨hMismatches, hSane⟩
    have hPart : ∀ field, fieldPart field (mismatchesOf expected e) = fieldPart field (mismatchesOf expected e') :=
      fun field => congrArg (fieldPart field) hMismatches
    refine ⟨?_, ?_, ?_, hSane⟩
    · have hLabel := hPart "label"
      simp only [fieldPart_mismatchesOf] at hLabel
      exact textMismatch_inj.mp (by simpa using hLabel)
    · have hValue := hPart "value"
      simp only [fieldPart_mismatchesOf] at hValue
      exact textMismatch_inj.mp (by simpa using hValue)
    · have hTraits := hPart "traits"
      simp only [fieldPart_mismatchesOf] at hTraits
      exact traitsDiff_inj.mp (by simpa using hTraits)

/-! ## Orders of one snapshot -/

/-- Whatever order the snapshot comes in, the result is the same. -/
def OrderFree (builtins : Builtins) (number : N → Val) (golden : List (String × Element N)) (actual : List (Element N))
    (screen : Frame N) : Prop :=
  ∀ actual' : List (Element N), actual'.Perm actual →
    compareGolden builtins (pinAll number golden) actual' screen =
      compareGolden builtins (pinAll number golden) actual screen

/-- Elements that share a pinned identifier read alike against the pinned element. -/
def PinnedAlike (golden : List (String × Element N)) (actual : List (Element N)) (screen : Frame N) : Prop :=
  ∀ entry ∈ golden, ∀ e ∈ actual, ∀ e' ∈ actual, e.identifier = some entry.1 → e'.identifier = some entry.1 →
    ReadsAlike entry.2 e e' screen

variable {golden : List (String × Element N)} {actual actual' : List (Element N)} {screen : Frame N} {key : Option String}

omit [Add N] [Zero N] [LE N] [DecidableLE N] in
theorem mem_of_byId {e : Element N} (h : get (byId actual) key = some e) : e ∈ actual ∧ e.identifier = key := by
  obtain ⟨e', he', hEq⟩ := List.mem_map.mp (mem_of_get_dictOf h)
  cases hEq
  exact ⟨he', rfl⟩

omit [Add N] [Zero N] [LE N] [DecidableLE N] in
theorem byId_isSome : (get (byId actual) key).isSome ↔ ∃ e ∈ actual, e.identifier = key := by
  rw [byId, get_dictOf_isSome, List.map_map]
  exact List.mem_map

theorem contribution_of_alike {entry : String × Element N} (hPerm : actual'.Perm actual)
    (h : ∀ e ∈ actual, ∀ e' ∈ actual, e.identifier = some entry.1 → e'.identifier = some entry.1 →
      ReadsAlike entry.2 e e' screen) :
    contribution (byId actual') screen entry = contribution (byId actual) screen entry := by
  have hSome : (get (byId actual') (some entry.1)).isSome ↔ (get (byId actual) (some entry.1)).isSome := by
    simp only [byId_isSome, hPerm.mem_iff]
  rw [contribution, contribution]
  cases hHere : get (byId actual) (some entry.1) with
  | none =>
    rw [hHere, ← not_iff_not, Option.not_isSome_iff_eq_none] at hSome
    rw [hSome.mpr (by simp)]
  | some e =>
    rw [hHere] at hSome
    obtain ⟨e', hThere⟩ := Option.isSome_iff_exists.mp (hSome.mpr rfl)
    rw [hThere]
    obtain ⟨hMem, hId⟩ := mem_of_byId hHere
    obtain ⟨hMem', hId'⟩ := mem_of_byId hThere
    have hAlike := h e' (hPerm.mem_iff.mp hMem') e hMem hId' hId
    obtain ⟨hMismatches, hSane⟩ := (readsAlike_iff (hId'.trans hId.symm)).mp hAlike
    dsimp only
    rw [hMismatches, hSane]

theorem orderFree_of_alike (h : PinnedAlike golden actual screen) : OrderFree builtins number golden actual screen := by
  intro actual' hPerm
  have hEach : ∀ entry ∈ golden, contribution (byId actual') screen entry = contribution (byId actual) screen entry :=
    fun entry hEntry => contribution_of_alike hPerm (h entry hEntry)
  rw [compareGolden_pinAll, compareGolden_pinAll]
  congr 2
  · exact List.flatMap_congr fun entry hEntry => by rw [hEach entry hEntry]
  · exact List.flatMap_congr fun entry hEntry => by rw [hEach entry hEntry]
  · exact List.flatMap_congr fun entry hEntry => by rw [hEach entry hEntry]

theorem eq_of_flatMap_eq {α β : Type} {f g : α → List β} {before later : List α} {x : α}
    (h : (before ++ x :: later).flatMap f = (before ++ x :: later).flatMap g) (hBefore : ∀ y ∈ before, f y = g y)
    (hLater : ∀ y ∈ later, f y = g y) : f x = g x := by
  rw [List.flatMap_append, List.flatMap_append, List.flatMap_cons, List.flatMap_cons, List.flatMap_congr hBefore,
    List.flatMap_congr hLater] at h
  exact List.append_cancel_right (List.append_cancel_left h)

theorem contribution_moved {before later : List (Element N)} {x : Element N} {entry : String × Element N}
    (h : x.identifier ≠ some entry.1) :
    contribution (byId (before ++ later ++ [x])) screen entry = contribution (byId (before ++ x :: later)) screen entry := by
  have hGet : get (byId (before ++ later ++ [x])) (some entry.1) = get (byId (before ++ x :: later)) (some entry.1) := by
    rw [byId, byId, get_dictOf, get_dictOf]
    simp [h]
  rw [contribution, contribution, hGet]

omit [Add N] [Zero N] [LE N] [DecidableLE N] in
theorem byId_last (elements : List (Element N)) (x : Element N) :
    get (byId (elements ++ [x])) x.identifier = some x := by
  rw [byId, List.map_append, List.map_singleton, dictOf_snoc, get_set_self]

/-- Moved to the end, an element represents its identifier; so it reads as the one that did before. -/
theorem reads_as_representative (hKeys : (golden.map Prod.fst).Nodup) (h : OrderFree builtins number golden actual screen)
    {entry : String × Element N} (hEntry : entry ∈ golden) {x r : Element N} (hx : x ∈ actual)
    (hId : x.identifier = some entry.1) (hr : get (byId actual) (some entry.1) = some r) :
    mismatchesOf entry.2 x = mismatchesOf entry.2 r ∧ frameIsSane x.frame screen = frameIsSane r.frame screen := by
  obtain ⟨before, later, rfl⟩ := List.append_of_mem hx
  obtain ⟨pinnedBefore, pinnedLater, rfl⟩ := List.append_of_mem hEntry
  have hPerm : (before ++ later ++ [x]).Perm (before ++ x :: later) := by
    rw [List.append_assoc]
    exact (List.perm_append_singleton x later).append_left before
  have hSame := h _ hPerm
  rw [compareGolden_pinAll, compareGolden_pinAll] at hSame
  injection hSame with hSame
  injection hSame with hMismatches _ hFrames
  have hOther : ∀ y ∈ pinnedBefore ++ pinnedLater,
      contribution (byId (before ++ later ++ [x])) screen y = contribution (byId (before ++ x :: later)) screen y := by
    intro y hy
    apply contribution_moved
    rw [hId, Ne, Option.some.injEq]
    intro hEq
    rw [List.map_append, List.map_cons, List.nodup_middle, List.nodup_cons] at hKeys
    apply hKeys.1
    rw [hEq, ← List.map_append]
    exact List.mem_map_of_mem hy
  have hMoved : get (byId (before ++ later ++ [x])) (some entry.1) = some x := by
    rw [← hId]
    exact byId_last _ x
  constructor
  · have hHere := eq_of_flatMap_eq hMismatches
      (fun y hy => by rw [hOther y (List.mem_append_left _ hy)])
      (fun y hy => by rw [hOther y (List.mem_append_right _ hy)])
    rwa [contribution, contribution, hMoved, hr] at hHere
  · have hHere := eq_of_flatMap_eq hFrames
      (fun y hy => by rw [hOther y (List.mem_append_left _ hy)])
      (fun y hy => by rw [hOther y (List.mem_append_right _ hy)])
    rw [contribution, contribution, hMoved, hr] at hHere
    dsimp only at hHere
    cases hx : frameIsSane x.frame screen <;> cases hr : frameIsSane r.frame screen <;> simp [hx, hr] at hHere ⊢

theorem alike_of_orderFree (hKeys : (golden.map Prod.fst).Nodup) (h : OrderFree builtins number golden actual screen) :
    PinnedAlike golden actual screen := by
  intro entry hEntry e he e' he' hId hId'
  obtain ⟨r, hr⟩ := Option.isSome_iff_exists.mp (byId_isSome.mpr ⟨e, he, hId⟩)
  obtain ⟨hMismatches, hSane⟩ := reads_as_representative hKeys h hEntry he hId hr
  obtain ⟨hMismatches', hSane'⟩ := reads_as_representative hKeys h hEntry he' hId' hr
  exact (readsAlike_iff (hId.trans hId'.symm)).mpr ⟨hMismatches.trans hMismatches'.symm, hSane.trans hSane'.symm⟩

/-! ## A golden and the snapshot it was saved from -/

/-- The golden saved for some identifiers loads again, and agrees with the snapshot. -/
def RoundTrips (builtins : Builtins) (number : N → Val) (actual : List (Element N)) (screen : Frame N)
    (ids : List String) : Prop :=
  ∃ loaded, loadGolden builtins (jsonRound (.dict (savedGolden number actual ids))) = .ok loaded ∧
    ∃ result, compareGolden builtins loaded actual screen = .ok result ∧ result.mismatches = [] ∧ result.missing = []

/-- The elements a golden is saved with. -/
def savedElements (actual : List (Element N)) (ids : List String) : List (String × Element N) :=
  dictOf (ids.filterMap fun cid => (get (byId actual) (some cid)).map fun el => (cid, el))

omit [Add N] [Zero N] [LE N] [DecidableLE N] in
theorem savedGolden_eq (ids : List String) :
    savedGolden number actual ids =
      (savedElements actual ids).map fun item => (item.1, Val.dict (savedFields number item.2)) := by
  rw [savedGolden, savedElements, ← dictOf_map fun el => Val.dict (savedFields number el), List.map_filterMap]
  congr 2
  funext cid
  cases get (byId actual) (some cid) <;> rfl

omit [Add N] [Zero N] [LE N] [DecidableLE N] in
theorem get_of_savedElements {ids : List String} {item : String × Element N} (h : item ∈ savedElements actual ids) :
    get (byId actual) (some item.1) = some item.2 := by
  obtain ⟨cid, -, hItem⟩ := List.mem_filterMap.mp (mem_of_mem_dictOf h)
  obtain ⟨el, hEl, rfl⟩ := Option.map_eq_some_iff.mp hItem
  exact hEl

omit [Add N] [Zero N] [LE N] [DecidableLE N] in
theorem validateElement_saved (hNumber : ∀ n, jsonRound (number n) = number n) {el : Element N} {cid : String}
    (hId : el.identifier = some cid) :
    validateElement builtins (jsonRound (.dict (savedFields number el))) cid = .ok (pinned number el) := by
  have hOptStr : ∀ o, jsonRound (optStr o) = optStr o := fun o => by cases o <;> rfl
  have hTraits : jsonRound (.list (el.traits.map .str)) = .list (el.traits.map .str) :=
    jsonRound_list fun x hx => by
      obtain ⟨t, -, rfl⟩ := List.mem_map.mp hx
      rfl
  have hFields : ∃ more, jsonRoundItems (savedFields number el) =
      [("identifier", .str cid), ("label", optStr el.label), ("traits", .list (el.traits.map .str)),
        ("value", optStr el.value),
        ("frame", .list [number el.frame.1, number el.frame.2.1, number el.frame.2.2.1, number el.frame.2.2.2])] ++
      more := by
    refine ⟨if el.crossOriginFrame then [("crossOriginFrame", .bool true)] else [], ?_⟩
    rw [savedFields, jsonRoundItems_eq_map, List.map_append]
    congr 1
    · simp only [List.map_cons, List.map_nil, hOptStr, hTraits, hId]
      simp only [jsonRound, jsonRoundList, hNumber]
      rfl
    · split <;> rfl
  obtain ⟨more, hFields⟩ := hFields
  rw [jsonRound, hFields, validateElement]
  have hNone : missingFields ([("identifier", Val.str cid), ("label", optStr el.label),
      ("traits", .list (el.traits.map .str)), ("value", optStr el.value), ("frame", .list [number el.frame.1,
        number el.frame.2.1, number el.frame.2.2.1, number el.frame.2.2.2])] ++ more) = [] := by
    simp [missingFields, elementFields, PyValue.get]
  rw [if_neg (not_not.mpr hNone)]
  simp [fieldOf, PyValue.get, pinned, hId]

omit [Add N] [Zero N] [LE N] [DecidableLE N] in
theorem mismatchesOf_self (e : Element N) : mismatchesOf e e = [] := by
  simp [mismatchesOf, textMismatch, traitsDiff, SameSet]

theorem round_trips (hNumber : ∀ n, jsonRound (number n) = number n) (actual : List (Element N)) (screen : Frame N)
    (ids : List String) : RoundTrips builtins number actual screen ids := by
  have hEach : ∀ item ∈ savedElements actual ids, get (byId actual) (some item.1) = some item.2 :=
    fun _ => get_of_savedElements
  have hLoaded : loadGolden builtins (jsonRound (.dict (savedGolden number actual ids))) =
      .ok (pinAll number (savedElements actual ids)) := by
    rw [jsonRound, loadGolden, jsonRoundItems_eq_map, savedGolden_eq, List.map_map, pinAll]
    generalize savedElements actual ids = saved at hEach
    induction saved with
    | nil => rfl
    | cons item saved ih =>
      obtain ⟨hItem, hEach⟩ := List.forall_mem_cons.mp hEach
      rw [List.map_cons, List.mapM_cons, ih hEach]
      simp only [Function.comp_apply]
      rw [validateElement_saved hNumber (mem_of_byId hItem).2]
      rfl
  refine ⟨_, hLoaded, _, compareGolden_pinAll _ _ _, ?_, ?_⟩
  · rw [List.flatMap_eq_nil_iff]
    intro item hItem
    rw [contribution, hEach item hItem]
    exact mismatchesOf_self item.2
  · rw [List.flatMap_eq_nil_iff]
    intro item hItem
    rw [contribution, hEach item hItem]

theorem golden_order_iff (builtins : Builtins) (number : N → Val) (hNumber : ∀ n, jsonRound (number n) = number n)
    (golden : List (String × Element N)) (hKeys : (golden.map Prod.fst).Nodup) (actual : List (Element N))
    (screen : Frame N) :
    (OrderFree builtins number golden actual screen ∧ ∀ ids, RoundTrips builtins number actual screen ids) ↔
      PinnedAlike golden actual screen :=
  ⟨fun h => alike_of_orderFree hKeys h.1, fun h => ⟨orderFree_of_alike h, round_trips hNumber actual screen⟩⟩

/-- Two rows of a list under one identifier. -/
def row (label : String) : Element ℚ := ⟨some "row", some label, [], none, (0, 0, 10, 10), none, false⟩

def rationals (q : ℚ) : Val := .float (.fin q)

/-- Two elements that cannot be told apart may share a pinned identifier. -/
theorem golden_order_rows :
    OrderFree ⟨id, fun _ => ""⟩ rationals [("row", row "A")] [row "B", row "B"] (0, 0, 100, 100) ∧
      ∀ ids, RoundTrips ⟨id, fun _ => ""⟩ rationals [row "B", row "B"] (0, 0, 100, 100) ids := by
  refine (golden_order_iff _ rationals (fun _ => rfl) [("row", row "A")] (by decide) _ _).mpr ?_
  intro entry hEntry e he e' he' _ _
  obtain rfl := List.mem_singleton.mp hEntry
  obtain rfl : e = row "B" := by simpa using he
  obtain rfl : e' = row "B" := by simpa using he'
  exact ⟨rfl, rfl, .inl ⟨fun _ => Iff.rfl, fun _ => Iff.rfl⟩, rfl⟩

theorem golden_order_swapped :
    ¬∀ (golden : List (String × Element ℚ)) (actual : List (Element ℚ)) (screen : Frame ℚ),
      OrderFree ⟨id, fun _ => ""⟩ rationals golden actual screen ∧
        ∀ ids, RoundTrips ⟨id, fun _ => ""⟩ rationals actual screen ids := by
  intro h
  have hAlike := alike_of_orderFree (by decide) (h [("row", row "A")] [row "A", row "B"] (0, 0, 100, 100)).1
  have hLabel := (hAlike _ List.mem_cons_self (row "A") (by simp) (row "B") (by simp) rfl rfl).label
  exact absurd hLabel (by decide)

end Bajutsu.Evidence.Golden
