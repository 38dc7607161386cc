import Bajutsu.Devices.Runs

/-!
# Which targets leave a record

Every condition of a target leaves a record of some outcome, but for one: a mobile range whose every
side is empty forms neither a run nor a failure. This module finds exactly the targets whose run list
is empty, and with them the scenarios that vanish from a plan.
-/

namespace Bajutsu.Devices

open PyValue

/-! ## The majors of a parsed range -/

/-- The `empty` flag of a range bounded on both sides tells whether its bounds meet. -/
def VersionRange.WellFormed (range : VersionRange) : Prop :=
  range.empty = false → ∀ lo hi, range.lower = some lo → range.upper = some hi →
    emptyBetween lo hi = false

theorem intersect_wellFormed (comparators : List (Op × Version)) :
    (intersect comparators).WellFormed := by
  intro hEmpty lo hi hLower hUpper
  rw [intersect] at hEmpty hLower hUpper
  generalize comparators.foldl intersectStep (none, none) = bounds at hEmpty hLower hUpper
  obtain ⟨lower, upper⟩ := bounds
  simp only at hLower hUpper
  subst hLower hUpper
  exact hEmpty

theorem parseSet_wellFormed {part : List Char} {text : String} {range : VersionRange}
    (h : parseSet part text = .ok range) : range.WellFormed := by
  rw [parseSet] at h
  split at h
  · rename_i lo hi _
    cases hLo : partialOf lo text with
    | error e => simp [hLo, bind, Except.bind] at h
    | ok lo =>
      cases hHi : partialOf hi text with
      | error e => simp [hLo, hHi, bind, Except.bind] at h
      | ok hi =>
        simp only [hLo, hHi, bind, Except.bind, pure, Except.pure, Except.ok.injEq] at h
        exact h ▸ intersect_wellFormed _
  · cases hTokens : readTokens text (PyText.words (joinOperators false (PyText.strip part))) with
    | error e => simp [hTokens, bind, Except.bind] at h
    | ok expanded =>
      cases expanded with
      | none =>
        simp only [hTokens, bind, Except.bind, pure, Except.pure, Except.ok.injEq] at h
        subst h
        intro hEmpty
        cases hEmpty
      | some comparators =>
        simp only [hTokens, bind, Except.bind, pure, Except.pure, Except.ok.injEq] at h
        exact h ▸ intersect_wellFormed _

theorem parse_cases {text : String} {spec : VersionSpec} (h : VersionSpec.parse text = .ok spec) :
    spec.text = text ∧ ∀ alt ∈ spec.alternatives, alt.WellFormed := by
  rw [VersionSpec.parse] at h
  cases hSides : (PyText.splitBars text.toList).mapM fun part => parseSet part text with
  | error e => simp [hSides, bind, Except.bind] at h
  | ok alternatives =>
    simp only [hSides, bind, Except.bind, pure, Except.pure, Except.ok.injEq] at h
    subst h
    refine ⟨rfl, fun alt hAlt => ?_⟩
    obtain ⟨part, _, hPart⟩ := exists_of_mapM_ok hSides alt hAlt
    exact parseSet_wellFormed hPart

theorem major_lt_stop {lo hi : Bound} (h : emptyBetween lo hi = false) :
    lo.version.major <
      if !hi.inclusive && hi.version = ⟨hi.version.major, 0, 0⟩ then hi.version.major
      else hi.version.major + 1 := by
  rw [emptyBetween] at h
  cases hLo : lo.inclusive <;> cases hHi : hi.inclusive <;>
    simp [hLo, hHi, Version.le_iff, Version.ext_iff] at h ⊢ <;>
    grind

theorem majors_of_bounded {range : VersionRange} (hWellFormed : range.WellFormed)
    (hBounded : range.bounded = true) :
    ∃ ms, range.majors = .ok ms ∧ (ms = [] ↔ range.empty = true) := by
  cases hEmpty : range.empty with
  | true => exact ⟨[], by simp [VersionRange.majors, hEmpty], by simp⟩
  | false =>
    cases hLower : range.lower with
    | none => simp [VersionRange.bounded, hEmpty, hLower] at hBounded
    | some lo =>
      cases hUpper : range.upper with
      | none => simp [VersionRange.bounded, hEmpty, hUpper] at hBounded
      | some hi =>
        have hLt := major_lt_stop (hWellFormed hEmpty lo hi hLower hUpper)
        refine ⟨_, by simp only [VersionRange.majors, hEmpty, hLower, hUpper]; rfl, ?_⟩
        rw [List.range'_eq_nil_iff]
        simp only [Bool.false_eq_true, iff_false]
        omega

/-- Every side of a range contradicts itself, such as `>5 <3` or `<*`. -/
def VersionSpec.Silent (spec : VersionSpec) : Prop := ∀ alt ∈ spec.alternatives, alt.empty = true

theorem majors_of_wellFormed {spec : VersionSpec} (h : ∀ alt ∈ spec.alternatives, alt.WellFormed) :
    ∃ ms, spec.majors = .ok ms ∧
      (ms = [] ↔ ∀ alt ∈ spec.alternatives, alt.bounded = true → alt.empty = true) := by
  have hMajors : ∀ alt ∈ spec.alternatives.filter VersionRange.bounded,
      alt.majors = .ok (alt.majors.toOption.getD []) ∧
        (alt.majors.toOption.getD [] = [] ↔ alt.empty = true) := by
    intro alt hAlt
    obtain ⟨hMem, hBounded⟩ := List.mem_filter.mp hAlt
    obtain ⟨ms, hOk, hNil⟩ := majors_of_bounded (h alt hMem) hBounded
    rw [hOk]
    exact ⟨rfl, hNil⟩
  refine ⟨_, by rw [VersionSpec.majors, mapM_eq_ok fun alt hAlt => (hMajors alt hAlt).1]; rfl, ?_⟩
  rw [← List.length_eq_zero_iff, Finset.length_sort, Finset.card_eq_zero,
    List.toFinset_eq_empty_iff, List.flatten_eq_nil_iff]
  constructor
  · intro hAll alt hMem hBounded
    have hAlt := List.mem_filter.mpr ⟨hMem, hBounded⟩
    exact (hMajors alt hAlt).2.mp (hAll _ (List.mem_map_of_mem hAlt))
  · intro hAll ms hMs
    obtain ⟨alt, hAlt, rfl⟩ := List.mem_map.mp hMs
    obtain ⟨hMem, hBounded⟩ := List.mem_filter.mp hAlt
    exact (hMajors alt hAlt).2.mpr (hAll alt hMem hBounded)

theorem versionRuns_eq_nil_iff {spec : VersionSpec} (h : ∀ alt ∈ spec.alternatives, alt.WellFormed)
    (base : TargetRun) (coords : List (String × String)) (candidates : List DeviceFacts)
    (versionField : String) :
    ∃ runs, versionRuns base coords spec candidates versionField = .ok runs ∧
      (runs = [] ↔ spec.Silent) := by
  obtain ⟨bounded, hMajors, hNil⟩ := majors_of_wellFormed h
  refine ⟨_, by rw [versionRuns, hMajors], ?_⟩
  rw [List.append_eq_nil_iff, List.map_eq_nil_iff, ← List.length_eq_zero_iff, Finset.length_sort,
    Finset.card_eq_zero, List.toFinset_eq_empty_iff, List.append_eq_nil_iff, List.map_eq_nil_iff, hNil]
  constructor
  · rintro ⟨⟨hBounded, hInOpen⟩, hSkipped⟩ alt hAlt
    by_cases hOpen : spec.alternatives.filter (fun alt => !alt.bounded) = []
    · have hAltBounded := List.filter_eq_nil_iff.mp hOpen alt hAlt
      exact hBounded alt hAlt (by simpa using hAltBounded)
    · rw [if_pos ⟨hOpen, hInOpen⟩] at hSkipped
      cases hSkipped
  · intro hSilent
    -- An empty side counts as bounded, so a silent range has no open side to wait for a device.
    have hOpen : spec.alternatives.filter (fun alt => !alt.bounded) = [] := by
      rw [List.filter_eq_nil_iff]
      intro alt hAlt
      simp [VersionRange.bounded, hSilent alt hAlt]
    rw [hOpen]
    exact ⟨⟨fun alt hAlt _ => hSilent alt hAlt, by simp⟩, by simp⟩

/-! ## Runs gathered over a list -/

theorem gather_eq_nil_iff {α : Type} {runsOf : α → Except RunsError (List TargetRun)}
    (silent : α → Prop) (as : List α)
    (h : ∀ a ∈ as, ∃ runs, runsOf a = .ok runs ∧ (runs = [] ↔ silent a)) :
    ∃ runs, gather runsOf as = .ok runs ∧ (runs = [] ↔ ∀ a ∈ as, silent a) := by
  induction as with
  | nil => exact ⟨[], rfl, by simp⟩
  | cons a as ih =>
    obtain ⟨⟨runs, hRuns, hNil⟩, h⟩ := List.forall_mem_cons.mp h
    obtain ⟨more, hMore, hMoreNil⟩ := ih h
    refine ⟨runs ++ more, by rw [gather, hRuns, hMore]; rfl, ?_⟩
    rw [List.append_eq_nil_iff, hNil, hMoreNil, List.forall_mem_cons]

theorem ok_of_gather {α : Type} {runsOf : α → Except RunsError (List TargetRun)} {as : List α}
    {runs : List TargetRun} (h : gather runsOf as = .ok runs) : ∀ a ∈ as, ∃ own, runsOf a = .ok own := by
  induction as generalizing runs with
  | nil => simp
  | cons a as ih =>
    rw [gather] at h
    cases hOwn : runsOf a with
    | error e => simp [hOwn] at h
    | ok own =>
      cases hMore : gather runsOf as with
      | error e => simp [hOwn, hMore, Except.map] at h
      | ok more => exact List.forall_mem_cons.mpr ⟨⟨own, hOwn⟩, ih hMore⟩

section Plan

variable {lower : String → String}

/-! ## The targets that leave a record -/

/-- The conditions as the config validators pass them. -/
structure Conditions.Valid (conditions : Conditions) : Prop where
  lists : ∀ field values, get conditions field = some (.many values) → values ≠ [] ∧ values.Nodup
  ranges : ∀ field ∈ ["os", "apiLevel", "browser.version"], ∀ text,
    get conditions field = some (.one text) → ∃ spec, VersionSpec.parse text = .ok spec

/-- The range of a target is written and every side of it is empty. -/
def SilentRange (conditions : Conditions) (field : String) : Prop :=
  ∃ text spec, get conditions field = some (.one text) ∧ VersionSpec.parse text = .ok spec ∧ spec.Silent

/-- No device has the model, or none of those that have it is of a listed family. -/
def FailsModel (lower : String → String) (conditions : Conditions) (devices : List DeviceFacts)
    (model : Option String) : Prop :=
  let seen := devices.filter fun d => matchesModel d model
  (model ≠ none ∧ seen = []) ∨
    (families conditions ≠ [] ∧ ofFamilies lower (families conditions) seen = [])

/-- A listed kind has no device, or some model fails on the devices of the kind. -/
def FailsKind (lower : String → String) (conditions : Conditions) (modelField : String)
    (devices : List DeviceFacts) (kindListed : Bool) (kind : Option String) : Prop :=
  (kindListed = true ∧ ofKind devices kind = []) ∨
    ∃ model ∈ (listed (get conditions modelField)).1,
      FailsModel lower conditions (ofKind devices kind) model

/-- The condition under which a target's run list is not empty. -/
def LeavesRecord (lower : String → String) (args : TargetArgs) : Prop :=
  if args.platform = .web then
    (∃ text, get args.conditions "browser.version" = some (.one text)) →
      ∀ name ∈ (listed (getOr args.conditions "browser.kind" args.engine)).1,
        ∃ b ∈ args.devices, some b.model = name
  else
    ∀ fields, fieldsOf args.platform = some fields → SilentRange args.conditions fields.2 →
      let kinds := listed (getOr args.conditions "kind" args.kind)
      ∃ kind ∈ kinds.1, FailsKind lower args.conditions fields.1 args.devices kinds.2 kind

theorem listed_ne_nil {value : Option CondValue} (h : ∀ values, value = some (.many values) → values ≠ []) :
    (listed value).1 ≠ [] := by
  match value with
  | none => simp [listed]
  | some (.one value) => simp [listed]
  | some (.many values) => simpa [listed] using h values rfl

theorem getOr_ne_nil {conditions : Conditions} {field : String} {default : Option String}
    {values : List String} (h : getOr conditions field default = some (.many values)) : values ≠ [] := by
  rw [getOr] at h
  split at h
  · split at h
    · cases default <;> simp at h
    · simp at h
  · split at h
    · cases default <;> simp at h
    · rename_i hNe
      cases h
      exact hNe
  · cases default <;> simp at h

theorem readSpec_cases {conditions : Conditions} (hValid : conditions.Valid) {field : String}
    (hField : field ∈ ["os", "apiLevel", "browser.version"]) :
    (readSpec conditions field = .ok none ∧ ¬∃ text, get conditions field = some (.one text)) ∨
      ∃ text spec, get conditions field = some (.one text) ∧ VersionSpec.parse text = .ok spec ∧
        readSpec conditions field = .ok (some spec) := by
  cases hGet : get conditions field with
  | none => exact .inl ⟨by simp [readSpec, hGet], by simp⟩
  | some value =>
    cases value with
    | many values => exact .inl ⟨by simp [readSpec, hGet], by simp⟩
    | one text =>
      obtain ⟨spec, hSpec⟩ := hValid.ranges field hField text hGet
      exact .inr ⟨text, spec, rfl, hSpec, by simp [readSpec, hGet, hSpec]⟩

theorem formedRuns_eq_nil_iff (base : TargetRun)
    (h : ∀ s, base.spec = some s → ∀ alt ∈ s.alternatives, alt.WellFormed)
    (coords : List (String × String)) (families : List String) (candidates seen : List DeviceFacts)
    (versionField : String) :
    ∃ runs, formedRuns lower base coords families candidates seen versionField = .ok runs ∧
      (runs = [] ↔ ∃ s, base.spec = some s ∧ s.Silent) := by
  cases hSpec : base.spec with
  | none => exact ⟨_, by simp only [formedRuns, hSpec]; rfl, by simp⟩
  | some s =>
    obtain ⟨runs, hRuns, hNil⟩ := versionRuns_eq_nil_iff (h s hSpec) base coords candidates versionField
    refine ⟨_, by simp only [formedRuns, hSpec, hRuns]; rfl, ?_⟩
    simp [List.map_eq_nil_iff, hNil]

theorem modelRuns_eq_nil_iff {spec : Option VersionSpec}
    (h : ∀ s, spec = some s → ∀ alt ∈ s.alternatives, alt.WellFormed) (target : String)
    (platform : Platform) (fields : String × String) (conditions : Conditions)
    (devices : List DeviceFacts) (kind : Option String) (kindCoords : List (String × String))
    (modelListed : Bool) (model : Option String) :
    ∃ runs, modelRuns lower target platform fields spec (families conditions) devices kind kindCoords
        modelListed model = .ok runs ∧
      (runs = [] ↔ (∃ s, spec = some s ∧ s.Silent) ∧ ¬FailsModel lower conditions devices model) := by
  simp only [modelRuns]
  split
  · rename_i hMissing
    exact ⟨_, rfl, by simp [FailsModel, hMissing]⟩
  · rename_i hMissing
    split
    · rename_i hFamily
      have hFails : FailsModel lower conditions devices model := .inr hFamily
      exact ⟨_, rfl, by simp [hFails]⟩
    · rename_i hFamily
      have hNotFails : ¬FailsModel lower conditions devices model := not_or.mpr ⟨hMissing, hFamily⟩
      obtain ⟨runs, hRuns, hNil⟩ := formedRuns_eq_nil_iff
        { target := target, platform := platform, model := model, spec := spec, kind := kind,
          conditioned := true } h _ (families conditions) _ _ fields.2
      exact ⟨runs, hRuns, by simp [hNil, hNotFails]⟩

theorem runsOfKind_eq_nil_iff {conditions : Conditions} (hValid : conditions.Valid) (target : String)
    {platform : Platform} {fields : String × String} (hFields : fieldsOf platform = some fields)
    (devices : List DeviceFacts) (kindListed : Bool) (kind : Option String) :
    ∃ runs, runsOfKind lower target platform fields conditions devices kindListed kind = .ok runs ∧
      (runs = [] ↔ SilentRange conditions fields.2 ∧
        ¬FailsKind lower conditions fields.1 devices kindListed kind) := by
  have hRange : fields.2 ∈ ["os", "apiLevel", "browser.version"] := by
    cases platform <;> cases hFields <;> decide
  simp only [runsOfKind]
  split
  · rename_i hNone
    exact ⟨_, rfl, by simp [FailsKind, hNone]⟩
  · rename_i hNone
    have hModels : (listed (get conditions fields.1)).1 ≠ [] :=
      listed_ne_nil fun values hGet => (hValid.lists _ _ hGet).1
    obtain ⟨model, hModel⟩ := List.exists_mem_of_ne_nil _ hModels
    simp only [kindRuns]
    rcases readSpec_cases hValid hRange with ⟨hSpec, hText⟩ | ⟨text, spec, hText, hParse, hSpec⟩
    · obtain ⟨runs, hRuns, hNil⟩ := gather_eq_nil_iff _
        (listed (get conditions fields.1)).1
        fun model _ => @modelRuns_eq_nil_iff lower none (by simp) target platform
          fields conditions (ofKind devices kind) kind _ _ model
      refine ⟨runs, by simp only [hSpec]; exact hRuns, ?_⟩
      have hNot : ¬SilentRange conditions fields.2 := fun ⟨text, _, hGet, _⟩ => hText ⟨text, hGet⟩
      rw [hNil]
      simp only [hNot, false_and, iff_false]
      intro hAll
      simpa using hAll model hModel
    · obtain ⟨runs, hRuns, hNil⟩ := gather_eq_nil_iff _
        (listed (get conditions fields.1)).1
        fun model _ => @modelRuns_eq_nil_iff lower (some spec)
          (fun s hs => Option.some.inj hs ▸ (parse_cases hParse).2) target platform
          fields conditions (ofKind devices kind) kind _ _ model
      refine ⟨runs, by simp only [hSpec]; exact hRuns, ?_⟩
      have hSilent : SilentRange conditions fields.2 ↔ spec.Silent := by
        constructor
        · rintro ⟨text', spec', hText', hParse', hSilent⟩
          rw [hText] at hText'
          cases hText'
          rw [hParse] at hParse'
          cases hParse'
          exact hSilent
        · exact fun hSilent => ⟨text, spec, hText, hParse, hSilent⟩
      rw [hNil, hSilent, FailsKind]
      constructor
      · intro hAll
        refine ⟨?_, ?_⟩
        · simpa using (hAll model hModel).1
        · rintro (hKind | ⟨model, hMem, hFails⟩)
          · exact hNone hKind
          · exact (hAll model hMem).2 hFails
      · rintro ⟨hAll, hNotFails⟩ model hMem
        exact ⟨⟨spec, rfl, hAll⟩, fun hFails => hNotFails (.inr ⟨model, hMem, hFails⟩)⟩

theorem webRun_ok_iff (target : String) (browsers : List DeviceFacts) (spec : Option VersionSpec)
    (engineListed : Bool) (name : Option String) :
    (∃ runs, webRun target browsers spec engineListed name = .ok runs) ↔
      (spec ≠ none → ∃ b ∈ browsers, some b.model = name) := by
  cases spec with
  | none => simp [webRun]
  | some spec =>
    simp only [webRun]
    cases hFind : browsers.find? fun b => some b.model = name with
    | none =>
      have hNone := List.find?_eq_none.mp hFind
      simpa using hNone
    | some launched =>
      have hMem := List.mem_of_find?_eq_some hFind
      have hModel := List.find?_some hFind
      refine ⟨fun _ _ => ⟨launched, hMem, by simpa using hModel⟩, fun _ => ?_⟩
      dsimp only
      split
      · exact ⟨_, rfl⟩
      · exact ⟨_, rfl⟩

theorem webRun_ne_nil {target : String} {browsers : List DeviceFacts} {spec : Option VersionSpec}
    {engineListed : Bool} {name : Option String} {runs : List TargetRun}
    (h : webRun target browsers spec engineListed name = .ok runs) : runs ≠ [] := by
  cases spec with
  | none =>
    cases h
    simp
  | some spec =>
    simp only [webRun] at h
    split at h
    · cases h
    · split at h
      · cases h
        simp
      · cases h
        simp

theorem gather_ne_nil {α : Type} {runsOf : α → Except RunsError (List TargetRun)} {as : List α}
    (hNe : as ≠ []) (h : ∀ a ∈ as, ∀ runs, runsOf a = .ok runs → runs ≠ []) {runs : List TargetRun}
    (hRuns : gather runsOf as = .ok runs) : runs ≠ [] := by
  obtain ⟨all, hAll, hNil⟩ := gather_eq_nil_iff (fun a => runsOf a = .ok []) as
    fun a ha => by
      obtain ⟨own, hOwn⟩ := ok_of_gather hRuns a ha
      exact ⟨own, hOwn, by rw [hOwn, Except.ok.injEq]⟩
  rw [hRuns] at hAll
  cases hAll
  intro hEmpty
  obtain ⟨a, ha⟩ := List.exists_mem_of_ne_nil _ hNe
  exact h a ha [] (hNil.mp hEmpty a ha) rfl

theorem webRuns_ne_nil_iff {conditions : Conditions} (hValid : conditions.Valid) (target : String)
    (browsers : List DeviceFacts) (engine : Option String) :
    (∃ runs, webRuns target conditions browsers engine = .ok runs ∧ runs ≠ []) ↔
      ((∃ text, get conditions "browser.version" = some (.one text)) →
        ∀ name ∈ (listed (getOr conditions "browser.kind" engine)).1,
          ∃ b ∈ browsers, some b.model = name) := by
  have hEngines : (listed (getOr conditions "browser.kind" engine)).1 ≠ [] :=
    listed_ne_nil fun values hValues => getOr_ne_nil hValues
  have hGather (spec : Option VersionSpec) :
      (∃ runs, gather
          (webRun target browsers spec (listed (getOr conditions "browser.kind" engine)).2)
          (listed (getOr conditions "browser.kind" engine)).1 = .ok runs ∧ runs ≠ []) ↔
        (spec ≠ none → ∀ name ∈ (listed (getOr conditions "browser.kind" engine)).1,
          ∃ b ∈ browsers, some b.model = name) := by
    constructor
    · rintro ⟨runs, hRuns, -⟩ hSpec name hName
      exact (webRun_ok_iff target browsers spec _ name).mp (ok_of_gather hRuns name hName) hSpec
    · intro hAll
      obtain ⟨runs, hRuns, -⟩ := gather_eq_nil_iff (fun _ => False) _
        fun name hName => by
          obtain ⟨own, hOwn⟩ := (webRun_ok_iff target browsers spec
            (listed (getOr conditions "browser.kind" engine)).2 name).mpr
              fun hSpec => hAll hSpec name hName
          exact ⟨own, hOwn, by simpa using webRun_ne_nil hOwn⟩
      exact ⟨runs, hRuns, gather_ne_nil hEngines (fun name _ own hOwn => webRun_ne_nil hOwn) hRuns⟩
  have hField : "browser.version" ∈ ["os", "apiLevel", "browser.version"] := by decide
  rcases readSpec_cases hValid hField with
    ⟨hSpec, hText⟩ | ⟨text, spec, hText, -, hSpec⟩
  · simp only [webRuns, hSpec, hGather none, hText, false_implies, ne_eq, not_true_eq_false]
  · simp only [webRuns, hSpec, hGather (some spec)]
    simp [hText]

/-- A target's run list is formed and not empty exactly when the target leaves a record. -/
theorem formTargetRuns_ne_nil_iff {args : TargetArgs} (hValid : args.conditions.Valid) :
    (∃ runs, formTargetRuns lower args = .ok runs ∧ runs ≠ []) ↔ LeavesRecord lower args := by
  rw [formTargetRuns, LeavesRecord]
  split
  · exact webRuns_ne_nil_iff hValid args.target args.devices args.engine
  · cases hFields : fieldsOf args.platform with
    | none => simp
    | some fields =>
      by_cases hEmpty : args.conditions = []
      · have hNot : ¬SilentRange [] fields.2 := by simp [SilentRange]
        simp [hEmpty, hNot]
      · obtain ⟨runs, hRuns, hNil⟩ := gather_eq_nil_iff _
          (listed (getOr args.conditions "kind" args.kind)).1
          fun kind _ => @runsOfKind_eq_nil_iff lower _ hValid args.target _ _ hFields args.devices
            (listed (getOr args.conditions "kind" args.kind)).2 kind
        have hKinds : (listed (getOr args.conditions "kind" args.kind)).1 ≠ [] :=
          listed_ne_nil fun values hValues => getOr_ne_nil hValues
        obtain ⟨kind, hKind⟩ := List.exists_mem_of_ne_nil _ hKinds
        simp only [if_neg hEmpty, hRuns, Except.ok.injEq, exists_eq_left', ne_eq, hNil,
          Option.some.injEq, forall_eq']
        constructor
        · intro hNotAll hSilent
          by_contra hNone
          exact hNotAll fun k hk => ⟨hSilent, fun hFails => hNone ⟨k, hk, hFails⟩⟩
        · intro hLeaves hAll
          obtain ⟨k, hk, hFails⟩ := hLeaves (hAll kind hKind).1
          exact (hAll k hk).2 hFails

/-! ## From run lists to the plan -/

theorem product_eq_nil_iff {α : Type} (lists : List (List α)) :
    product lists = [] ↔ ∃ xs ∈ lists, xs = [] := by
  induction lists with
  | nil => simp [product]
  | cons xs lists ih =>
    rw [product, List.flatMap_eq_nil_iff]
    cases xs with
    | nil => simp
    | cons x xs => simp +contextual [ih]

variable {repr : String → String}

/-- A target leaves a record exactly when its run list is formed and not empty, and a scenario
vanishes from the plan as soon as one of its targets leaves none. -/
theorem plan_leaves_record_iff :
    (∀ args : TargetArgs, args.conditions.Valid →
      ((∃ runs, formTargetRuns lower args = .ok runs ∧ runs ≠ []) ↔ LeavesRecord lower args)) ∧
    ∀ (scenario : List (TargetArgs × Participant)) (pools : Pools),
      (∀ item ∈ scenario, item.1.conditions.Valid ∧ formTargetRuns lower item.1 = .ok item.2.runs) →
      (combine lower repr (scenario.map Prod.snd) pools ≠ [] ↔
        ∀ item ∈ scenario, LeavesRecord lower item.1) := by
  refine ⟨fun args hValid => formTargetRuns_ne_nil_iff hValid, fun scenario pools hFormed => ?_⟩
  rw [ne_eq, combine, List.map_eq_nil_iff, product_eq_nil_iff]
  simp only [List.map_map, List.mem_map, Function.comp_apply, not_exists, not_and,
    forall_exists_index, and_imp, forall_apply_eq_imp_iff₂]
  refine forall₂_congr fun item hItem => ?_
  obtain ⟨hValid, hRuns⟩ := hFormed item hItem
  rw [← formTargetRuns_ne_nil_iff hValid, hRuns]
  simp

end Plan

def modelTarget : TargetArgs :=
  { target := "app", platform := .ios, conditions := [("model", .one "iPhone 99")], devices := [] }

def missingModel : TargetRun :=
  { target := "app", platform := .ios, model := some "iPhone 99", outcome := .failed,
    reason := "runsOn.ios.model  \"iPhone 99\"  available: no device", conditioned := true }

theorem plan_leaves_record_missing_model :
    combine id id [⟨"app", [], "xcuitest", [missingModel]⟩] [] ≠ [] := by
  have hValid : modelTarget.conditions.Valid := {
    lists := fun field values h => by
      simp only [modelTarget, get_cons, get_nil] at h
      split at h <;> simp at h
    ranges := fun field hField text h => by
      simp only [modelTarget, get_cons, get_nil] at h
      split at h
      · rename_i hModel
        subst hModel
        simp at hField
      · simp at h }
  have hRuns : formTargetRuns id modelTarget = .ok [missingModel] := rfl
  refine (plan_leaves_record_iff.2 [(modelTarget, ⟨"app", [], "xcuitest", [missingModel]⟩)] [] ?_).mpr ?_
  · exact fun item hItem => List.mem_singleton.mp hItem ▸ ⟨hValid, hRuns⟩
  · intro item hItem
    rw [List.mem_singleton.mp hItem]
    exact ((@plan_leaves_record_iff id id).1 modelTarget hValid).mp
      ⟨_, hRuns, List.cons_ne_nil _ _⟩

def contradictory : TargetArgs :=
  { target := "app", platform := .ios, conditions := [("os", .one ">5 <3")], devices := [] }

theorem contradictory_range : VersionSpec.parse ">5 <3" =
    .ok ⟨">5 <3", [⟨some ⟨⟨6, 0, 0⟩, true⟩, some ⟨⟨3, 0, 0⟩, false⟩, true⟩]⟩ := rfl

theorem contradictory_valid : contradictory.conditions.Valid where
  lists field values h := by
    simp only [contradictory, get_cons, get_nil] at h
    split at h <;> simp at h
  ranges field _ text h := by
    simp only [contradictory, get_cons, get_nil] at h
    split at h
    · cases h
      exact ⟨_, contradictory_range⟩
    · simp at h

/-- The range `>5 <3` passes validation, and the target forms neither a run nor a failure. -/
theorem contradictory_range_forms_no_run :
    ¬∀ (lower : String → String) (args : TargetArgs), args.conditions ≠ [] → args.conditions.Valid →
      ∃ runs, formTargetRuns lower args = .ok runs ∧ runs ≠ [] := by
  intro hAll
  have hLeaves : LeavesRecord id contradictory := (formTargetRuns_ne_nil_iff contradictory_valid).mp
    (hAll id contradictory (List.cons_ne_nil _ _) contradictory_valid)
  have hSilent : SilentRange contradictory.conditions "os" :=
    ⟨">5 <3", _, rfl, contradictory_range, by simp [VersionSpec.Silent]⟩
  obtain ⟨kind, hKind, hFails⟩ := hLeaves ("model", "os") rfl hSilent
  simp [contradictory, getOr, listed, FailsKind, FailsModel, families, get_cons] at hKind hFails

end Bajutsu.Devices
