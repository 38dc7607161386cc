import Bajutsu.Devices.FirstRun

/-!
# The runs that doctor lists

Before a run, doctor lists what the conditions of one target form: on the devices of a pool, where one could be read, and
from the conditions alone otherwise.
-/

namespace Bajutsu.Devices

open PyValue

def Combination.label (combination : Combination) : String :=
  ", ".intercalate ((combination.runs.filter fun run => run.coordinates ≠ []).map fun run =>
    if 1 < combination.runs.length then run.target ++ ": " ++ run.label else run.label)

/-! ## `declared_runs` -/

def perAvailableMajor : String := "one run per available major version"

def firstAvailableFamily : String := "the first available family"

/-- The lists that a loop makes, one after the other. -/
def collect {α β ε : Type} (listOf : α → Except ε (List β)) : List α → Except ε (List β)
  | [] => .ok []
  | a :: as =>
    match listOf a with
    | .error e => .error e
    | .ok bs => (collect listOf as).map fun more => bs ++ more

/-- A value that is one of a list names the run. -/
def nameOf (isListed : Bool) (value : Option String) : List String :=
  match value with
  | some value => if isListed then [value] else []
  | none => []

/-- The runs of one kind and model. -/
def declaredLabels (platform : Platform) (versionField : String) (spec : Option VersionSpec) (named : List String) :
    Except RunsError (List String) :=
  match spec with
  | none => .ok [" / ".intercalate named]
  | some spec =>
    match spec.majors with
    | .error e => .error (.version e)
    | .ok majors =>
      let openSide :=
        if spec.alternatives.any fun alt => !alt.bounded then
          [" / ".intercalate (named ++ [perAvailableMajor ++ " in " ++ versionField ++ " \"" ++ spec.text ++ "\""])]
        else []
      .ok (majors.map (fun m => " / ".intercalate (named ++ [majorLabel platform m])) ++ openSide)

def declaredRuns (platform : Platform) (conditions : Conditions) (engine : Option String) :
    Except RunsError (List String) :=
  if platform = .web then
    let (engines, isListed) := listed (getOr conditions "browser.kind" engine)
    .ok (engines.map fun name => if isListed then name.getD "" else "")
  else
    match fieldsOf platform with
    | none => .ok [""]
    | some fields =>
      if conditions = [] then .ok [""]
      else
        let (kinds, kindsListed) := listed (get conditions "kind")
        let (models, modelsListed) := listed (get conditions fields.1)
        let family :=
          if 1 < (families conditions).length then
            [firstAvailableFamily ++ " of \"" ++ ", ".intercalate (families conditions) ++ "\""]
          else []
        match readSpec conditions fields.2 with
        | .error e => .error e
        | .ok spec =>
          collect
            (fun kind => collect
              (fun model => declaredLabels platform fields.2 spec
                (nameOf kindsListed kind ++ nameOf modelsListed model ++ family))
              models)
            kinds

/-! ## `list_runs` -/

inductive ListedOutcome where
  | run
  | failed
  | notApplicable
  | declared
  deriving DecidableEq

def Outcome.listed : Outcome → ListedOutcome
  | run => .run
  | failed => .failed
  | notApplicable => .notApplicable

/-- A kind or a family is named beside the label that leaves it out. -/
structure ListedRun where
  label : String
  outcome : ListedOutcome
  devices : List String := []
  reason : String := ""
  kind : Option String := none
  family : Option String := none

section Listing

variable (lower : String → String)

def listWebRun (devices : List DeviceFacts) (run : TargetRun) : ListedRun :=
  if run.outcome ≠ .run then { label := run.label, outcome := run.outcome.listed, reason := run.reason }
  else
    let launched := (devices.filter fun d => some d.model = run.engine).map DeviceFacts.describe
    { label := run.label, outcome := .run, devices := if launched = [] then [run.engine.getD "None"] else launched }

def listMobileRun (devices : List DeviceFacts) (run : TargetRun) : ListedRun :=
  let named : ListedRun :=
    { label := run.label
      outcome := run.outcome.listed
      kind := if "kind" ∈ run.coordinates.map Prod.fst then none else run.kind
      family := if "family" ∈ run.coordinates.map Prod.fst then none else run.family }
  if run.outcome ≠ .run then { named with reason := run.reason }
  else
    match eligibleSet lower run devices 1 with
    | none => { named with outcome := .failed, reason := "no available device fits this run" }
    | some fit => { named with devices := fit.map DeviceFacts.describe }

/-- `args.engine` is the engine that a web target is driven with. -/
def listRuns (args : TargetArgs) (devices : Option (List DeviceFacts)) : Except RunsError (List ListedRun) :=
  let engine := if args.platform = .web then args.engine else none
  match devices with
  | none =>
    (declaredRuns args.platform args.conditions engine).map fun labels =>
      labels.map fun label => { label, outcome := .declared }
  | some devices =>
    (formTargetRuns lower { args with devices, engine }).map fun formed =>
      formed.map (if args.platform = .web then listWebRun devices else listMobileRun lower devices)

end Listing

/-! ## Listed and combined -/

section Combining

variable {lower repr : String → String} {first pool : String} {others : List String} {devices : List DeviceFacts}

/-- A listed run is a combination of one participant: `chosen` are the devices of both. -/
structure ListedAs (first : String) (devices : List DeviceFacts) (listed : ListedRun) (combination : Combination) : Prop where
  label : listed.label = combination.label
  outcome : listed.outcome = combination.outcome.listed
  runs : combination.outcome = .run → ∃ chosen : List DeviceFacts, (∀ d ∈ chosen, d ∈ devices) ∧
    listed.devices = chosen.map DeviceFacts.describe ∧ combination.devices = [(first, chosen.map DeviceFacts.udid)]
  stays : combination.outcome ≠ .run → listed.devices = [] ∧ combination.devices = []

theorem label_single {run : TargetRun} {combination : Combination} (h : combination.runs = [run]) :
    combination.label = run.label := by
  rw [Combination.label, h, TargetRun.label]
  by_cases hCoords : run.coordinates = []
  · simp [hCoords]
  · simp [hCoords, TargetRun.label]

theorem assign_single {run : TargetRun} (hRun : run.conditioned = true) (participant : Participant) :
    assign lower repr [(participant, run)] [(participant.pool, devices)] =
      match eligibleSet lower run devices 1 with
      | some chosen => { runs := [run], outcome := .run, devices := [(participant.first, chosen.map DeviceFacts.udid)] }
      | none =>
        { runs := [run], outcome := .failed
          reason := "target " ++ repr run.target ++ ": no " ++ toString 1 ++ " available device(s) fit " ++ run.what ++
            " with the same model and release; available: " ++ available devices } := by
  have hGet : get [(participant.pool, devices)] participant.pool = some devices := by rw [get_cons, if_pos rfl]
  have hOrder : claimOrder ((groupsOf [(participant, run)] [(participant.pool, devices)]).map Prod.snd) =
      [[(participant, run)]] := by
    have hGroups : groupsOf [(participant, run)] [(participant.pool, devices)] =
        [((participant.pool, run.key), [(participant, run)])] := by
      rw [groupsOf, List.filter_cons, hGet]
      rfl
    simp [hGroups, claimOrder, conditionedFirst, hRun]
  have hFree : freeDevices [(participant.pool, devices)] {} participant.pool = devices := by
    rw [freeDevices, hGet]
    simp [Claims.of]
  rw [assign, hOrder, claimAll, claimStep]
  simp only [hRun, Bool.not_true, Bool.false_and, Bool.false_eq_true, if_false, hFree, List.length_singleton]
  cases eligibleSet lower run devices 1 with
  | none => rfl
  | some chosen => rfl

theorem mem_of_eligible {run : TargetRun} {chosen : List DeviceFacts} (hRun : run.conditioned = true)
    (h : eligibleSet lower run devices 1 = some chosen) : ∀ d ∈ chosen, d ∈ devices := by
  intro d hd
  exact ((mem_of_eligibleSet hRun h).2 d hd).1

theorem listedAs_combined {run : TargetRun} (hRun : run.outcome = .run → run.conditioned = true) (participant : Participant) :
    ListedAs participant.first devices (listMobileRun lower devices run)
      (combineRuns lower repr [participant] [(participant.pool, devices)] [run]) := by
  have hFailed : [run].any (fun run => run.outcome = .failed) = decide (run.outcome = .failed) := by simp
  have hSkipped : [run].any (fun run => run.outcome = .notApplicable) = decide (run.outcome = .notApplicable) := by simp
  rw [listMobileRun, combineRuns, hFailed, hSkipped]
  by_cases hGoes : run.outcome = .run
  · have hNotFailed : decide (run.outcome = .failed) = false := by rw [hGoes]; rfl
    have hNotSkipped : decide (run.outcome = .notApplicable) = false := by rw [hGoes]; rfl
    rw [hNotFailed, hNotSkipped, if_neg Bool.false_ne_true, if_neg Bool.false_ne_true, List.zip_cons_cons, List.zip_nil_right,
      assign_single (hRun hGoes)]
    dsimp only
    rw [if_neg (not_not.mpr hGoes)]
    cases hEligible : eligibleSet lower run devices 1 with
    | none => exact ⟨(label_single rfl).symm, rfl, (by rintro ⟨⟩), fun _ => ⟨rfl, rfl⟩⟩
    | some chosen =>
      refine ⟨(label_single rfl).symm, by rw [hGoes], ?_, fun h => absurd rfl h⟩
      intro _
      exact ⟨chosen, mem_of_eligible (hRun hGoes) hEligible, rfl, rfl⟩
  · dsimp only
    rw [if_pos hGoes]
    cases hOutcome : run.outcome with
    | run => exact absurd hOutcome hGoes
    | failed => exact ⟨(label_single rfl).symm, rfl, (by rintro ⟨⟩), fun _ => ⟨rfl, rfl⟩⟩
    | notApplicable => exact ⟨(label_single rfl).symm, rfl, (by rintro ⟨⟩), fun _ => ⟨rfl, rfl⟩⟩

theorem product_single (runs : List TargetRun) : product [runs] = runs.map fun run => [run] := by
  simp [product, List.map_eq_flatMap]

theorem listed_combined {runs : List TargetRun} (hRuns : ∀ run ∈ runs, run.outcome = .run → run.conditioned = true)
    (first pool : String) (others : List String) :
    List.Forall₂ (ListedAs first devices) (runs.map (listMobileRun lower devices))
      (combine lower repr [⟨first, others, pool, runs⟩] [(pool, devices)]) := by
  rw [combine, List.map_singleton, product_single, List.map_map, List.forall₂_map_left_iff, List.forall₂_map_right_iff,
    List.forall₂_same]
  intro run hMem
  exact listedAs_combined (hRuns run hMem) ⟨first, others, pool, runs⟩

end Combining

/-! ## Declared and formed -/

section Declared

variable {lower : String → String} {platform : Platform} {fields : String × String} {conditions : Conditions}
  {devices : List DeviceFacts} {spec : Option VersionSpec}

theorem labels_gather {α : Type} {runsOf : α → Except RunsError (List TargetRun)}
    {labelsOf : α → Except RunsError (List String)} {as : List α}
    (h : ∀ a ∈ as, ∃ runs, runsOf a = .ok runs ∧ labelsOf a = .ok (runs.map TargetRun.label)) :
    ∃ runs, gather runsOf as = .ok runs ∧ collect labelsOf as = .ok (runs.map TargetRun.label) := by
  induction as with
  | nil => exact ⟨[], rfl, rfl⟩
  | cons a as ih =>
    obtain ⟨⟨runs, hRuns, hLabels⟩, hRest⟩ := List.forall_mem_cons.mp h
    obtain ⟨more, hMore, hMoreLabels⟩ := ih hRest
    refine ⟨runs ++ more, by rw [gather, hRuns, hMore]; rfl, ?_⟩
    rw [collect, hLabels, hMoreLabels, List.map_append]
    rfl

theorem label_at (base : TargetRun) (coords : List (String × String)) (outcome : Outcome) (reason : String)
    (major : Option Nat) : (base.at coords outcome reason major).label = " / ".intercalate (coords.map Prod.snd) := rfl

theorem label_withFamily {run : TargetRun} {families : List String} (h : families.length ≤ 1)
    (candidates seen : List DeviceFacts) (position : Nat) :
    (withFamily lower run families candidates seen position).label = run.label := by
  rw [withFamily]
  split
  · rfl
  · dsimp only
    split
    · rfl
    · rw [if_neg (Nat.not_lt.mpr h)]
      rfl

/-- The ranges end on both sides. -/
def BoundedSpec (spec : Option VersionSpec) : Prop :=
  ∀ s, spec = some s → s.bounded = true ∧ ∀ alt ∈ s.alternatives, alt.WellFormed

theorem labels_versionRuns {s : VersionSpec} (hBounded : s.bounded = true) (hWell : ∀ alt ∈ s.alternatives, alt.WellFormed)
    (base : TargetRun) (coords : List (String × String)) (candidates : List DeviceFacts) (versionField : String) :
    ∃ majors, s.majors = .ok majors ∧ versionRuns base coords s candidates versionField =
      .ok (majors.map fun m => base.at (coords ++ [(versionField, majorLabel base.platform m)]) .run "" (some m)) := by
  obtain ⟨majors, hMajors, hSorted, -⟩ := VersionSpec.majors_eq hWell
  refine ⟨majors, hMajors, ?_⟩
  have hOpen : (s.alternatives.filter fun alt => !alt.bounded) = [] := by
    rw [List.filter_eq_nil_iff]
    intro alt hAlt
    rw [List.all_eq_true.mp hBounded alt hAlt]
    exact Bool.false_ne_true
  have hSame : (majors ++ ([] : List Nat)).toFinset.sort = majors := by
    rw [List.append_nil]
    exact List.toFinset_sort (· ≤ ·) (hSorted.imp ne_of_lt) |>.mpr (hSorted.imp le_of_lt)
  have hNone : (candidates.filter fun d => ([] : List VersionRange).any fun alt => alt.contains d.version) = [] := by simp
  simp only [versionRuns, hMajors, hOpen, hNone, List.map_nil, hSame]
  simp

theorem labels_formedRuns (hSpec : BoundedSpec spec) {base : TargetRun} (hBase : base.spec = spec)
    {families : List String} (hFamilies : families.length ≤ 1) (coords : List (String × String))
    (candidates seen : List DeviceFacts) (versionField : String) :
    ∃ runs, formedRuns lower base coords families candidates seen versionField = .ok runs ∧
      declaredLabels base.platform versionField spec (coords.map Prod.snd) = .ok (runs.map TargetRun.label) := by
  have hPlaced (runs : List TargetRun) : (runs.map fun run =>
      if families = [] then run else withFamily lower run families candidates seen coords.length).map TargetRun.label =
        runs.map TargetRun.label := by
    rw [List.map_map]
    apply List.map_congr_left
    intro run _
    rw [Function.comp_apply]
    split
    · rfl
    · exact label_withFamily hFamilies candidates seen coords.length
  subst hBase
  cases hOwn : base.spec with
  | none =>
    refine ⟨_, by simp only [formedRuns, hOwn]; rfl, ?_⟩
    rw [hPlaced]
    rfl
  | some s =>
    obtain ⟨hBounded, hWell⟩ := hSpec s hOwn
    obtain ⟨majors, hMajors, hRuns⟩ := labels_versionRuns hBounded hWell base coords candidates versionField
    refine ⟨_, by simp only [formedRuns, hOwn, hRuns]; rfl, ?_⟩
    have hNoOpen : (s.alternatives.any fun alt => !alt.bounded) = false := by
      rw [List.any_eq_false]
      intro alt hAlt
      rw [List.all_eq_true.mp hBounded alt hAlt]
      exact Bool.false_ne_true
    rw [hPlaced, declaredLabels]
    simp only [hMajors, hNoOpen, Bool.false_eq_true, if_false, List.append_nil, List.map_map]
    congr 1
    apply List.map_congr_left
    intro m _
    rw [Function.comp_apply, label_at, List.map_append]
    rfl

theorem labels_modelRuns (hSpec : BoundedSpec spec) (hFamilies : (families conditions).length ≤ 1) (target : String)
    (kind : Option String) (kindCoords : List (String × String)) (modelListed : Bool) {model : Option String}
    (h : ¬ FailsModel lower conditions devices model) :
    ∃ runs, modelRuns lower target platform fields spec (families conditions) devices kind kindCoords modelListed model =
        .ok runs ∧
      declaredLabels platform fields.2 spec (kindCoords.map Prod.snd ++ nameOf modelListed model) =
        .ok (runs.map TargetRun.label) := by
  obtain ⟨hModel, hFamily⟩ := not_or.mp h
  clear h
  have hFormed (coords : List (String × String)) := @labels_formedRuns lower spec hSpec
    (modelBase target platform spec kind model) rfl (families conditions) hFamilies (kindCoords ++ coords)
    (ofFamilies lower (families conditions) (devices.filter fun d => matchesModel d model))
    (devices.filter fun d => matchesModel d model) fields.2
  simp only [modelRuns]
  rw [if_neg hModel, if_neg hFamily]
  clear hModel hFamily
  cases model with
  | none =>
    obtain ⟨runs, hRuns, hLabels⟩ := hFormed []
    refine ⟨runs, hRuns, ?_⟩
    rw [← hLabels, List.map_append]
    rfl
  | some m =>
    obtain ⟨runs, hRuns, hLabels⟩ := hFormed (if modelListed = true then [(fields.1, m)] else [])
    refine ⟨runs, hRuns, ?_⟩
    rw [← hLabels, List.map_append]
    cases modelListed <;> rfl

/-- What is declared of conditions is what they form on devices that fail no kind and no model of theirs. -/
theorem labels_formTargetRuns (hFields : fieldsOf platform = some fields) (hNe : conditions ≠ [])
    (hResolved : conditions.Resolved) (hRead : readSpec conditions fields.2 = .ok spec) (hSpec : BoundedSpec spec)
    (hFamilies : (families conditions).length ≤ 1) (target : String) (engine : Option String)
    (h : ∀ kind ∈ (listed (get conditions "kind")).1,
      ¬ FailsKind lower conditions fields.1 devices (listed (get conditions "kind")).2 kind) :
    ∃ runs, formTargetRuns lower (mobileArgs target platform conditions devices engine) = .ok runs ∧
      declaredRuns platform conditions engine = .ok (runs.map TargetRun.label) := by
  have hMobile : platform ≠ .web := by
    rintro rfl
    cases hFields
  have hOneFamily : ¬ 1 < (families conditions).length := Nat.not_lt.mpr hFamilies
  rw [formTargetRuns_mobile hFields hNe hResolved, declaredRuns]
  simp only [if_neg hMobile, hFields, if_neg hNe, hRead, if_neg hOneFamily, List.append_nil]
  apply labels_gather
  intro kind hKind
  obtain ⟨hDevices, hModels⟩ := not_or.mp (h kind hKind)
  simp only [runsOfKind]
  rw [if_neg hDevices]
  simp only [kindRuns, hRead]
  apply labels_gather
  intro model hModel
  have hNamed : nameOf (listed (get conditions "kind")).2 kind =
      (match kind with
        | some k => if (listed (get conditions "kind")).2 = true then [("kind", k)] else []
        | none => []).map Prod.snd := by
    cases kind with
    | none => rfl
    | some k => cases (listed (get conditions "kind")).2 <;> rfl
  rw [hNamed]
  exact labels_modelRuns hSpec hFamilies target kind _ _ fun hFails => hModels ⟨model, hModel, hFails⟩

end Declared

/-! ## What doctor lists is what a run does -/

/-- The listing of one target's conditions on a pool, and without one. -/
structure ListsAsRun (lower repr : String → String) (target : String) (platform : Platform) (fields : String × String)
    (conditions : Conditions) (devices : List DeviceFacts) (engine : Option String) : Prop where
  combined : ∃ formed listed,
    formTargetRuns lower (mobileArgs target platform conditions devices engine) = .ok formed ∧
      listRuns lower (mobileArgs target platform conditions [] engine) (some devices) = .ok listed ∧
      ∀ first others pool, List.Forall₂ (ListedAs first devices) listed
        (combine lower repr [⟨first, others, pool, formed⟩] [(pool, devices)])
  /-- Where each listed kind has a device, and each model one that is of the family too. -/
  declared : (families conditions).length ≤ 1 →
    (∀ spec, readSpec conditions fields.2 = .ok (some spec) → spec.bounded = true) →
    (∀ kind ∈ (listed (get conditions "kind")).1,
      ¬ FailsKind lower conditions fields.1 devices (listed (get conditions "kind")).2 kind) →
    ∃ formed, formTargetRuns lower (mobileArgs target platform conditions devices engine) = .ok formed ∧
      declaredRuns platform conditions engine = .ok (formed.map TargetRun.label)

theorem lists_as_run (lower repr : String → String) (target : String) {platform : Platform} {fields : String × String}
    (hFields : fieldsOf platform = some fields) {conditions : Conditions} (hNe : conditions ≠ [])
    (hResolved : conditions.Resolved) (devices : List DeviceFacts) (engine : Option String) :
    ListsAsRun lower repr target platform fields conditions devices engine where
  combined := by
    have hMobile : platform ≠ .web := by
      rintro rfl
      cases hFields
    obtain ⟨spec, hRead, -⟩ := readSpec_ok hFields hResolved.valid
    obtain ⟨formed, hFormed⟩ := @formTargetRuns_ok lower target platform fields conditions devices none hFields hNe hResolved
    have hSame : formTargetRuns lower (mobileArgs target platform conditions devices engine) = .ok formed := by
      rw [formTargetRuns_mobile hFields hNe hResolved, ← hFormed, formTargetRuns_mobile hFields hNe hResolved]
    refine ⟨formed, formed.map (listMobileRun lower devices), hSame, ?_, ?_⟩
    · have hListed : listRuns lower (mobileArgs target platform conditions [] engine) (some devices) =
          (formTargetRuns lower (mobileArgs target platform conditions devices none)).map fun formed =>
            formed.map (listMobileRun lower devices) := by simp [listRuns, mobileArgs, hMobile]
      rw [hListed, hFormed]
      rfl
    · intro first others pool
      apply listed_combined
      intro run hRun hOutcome
      exact (formTargetRuns_goes hFields hNe hResolved hRead hFormed run hRun hOutcome).conditioned
  declared := by
    intro hFamilies hBounded hKinds
    obtain ⟨spec, hRead, hWell⟩ := readSpec_ok hFields hResolved.valid
    apply labels_formTargetRuns hFields hNe hResolved hRead _ hFamilies target engine hKinds
    rintro s rfl
    exact ⟨hBounded s hRead, hWell s rfl⟩

/-! ## A model that no device has -/

def modelInRange : Conditions := [("model", .one "iPhone 16"), ("os", .one ">=18 <20")]

theorem modelInRange_parse : VersionSpec.parse ">=18 <20" =
    .ok ⟨">=18 <20", [⟨some ⟨⟨18, 0, 0⟩, true⟩, some ⟨⟨20, 0, 0⟩, false⟩, false⟩]⟩ := rfl

theorem get_modelInRange (field : String) : get modelInRange field =
    if "model" = field then some (.one "iPhone 16") else if "os" = field then some (.one ">=18 <20") else none := by
  rw [modelInRange, get_cons, get_cons, get_nil]

theorem modelInRange_resolved : modelInRange.Resolved := by
  refine ⟨⟨?_, ?_⟩, ?_⟩
  · intro field values h
    rw [get_modelInRange] at h
    split at h
    · cases h
    · split at h <;> cases h
  · intro field hField text h
    rw [get_modelInRange] at h
    split at h
    · rename_i hIs
      subst hIs
      simp at hField
    · split at h
      · cases h
        exact ⟨_, modelInRange_parse⟩
      · cases h
  · intro value h
    rw [get_modelInRange, if_neg (by decide), if_neg (by decide)] at h
    cases h

theorem lists_as_run_phone : ListsAsRun id id "app" .ios ("model", "os") modelInRange [phone] none :=
  lists_as_run id id "app" rfl (List.cons_ne_nil _ _) modelInRange_resolved [phone] none

/-- On a pool without the model the two majors that are declared are one run, which fails. -/
theorem declared_without_model :
    ¬ ∀ (conditions : Conditions) (devices : List DeviceFacts), conditions ≠ [] → conditions.Resolved →
      (families conditions).length ≤ 1 →
      (∀ spec, readSpec conditions "os" = .ok (some spec) → spec.bounded = true) →
      ∃ formed, formTargetRuns id (mobileArgs "app" .ios conditions devices none) = .ok formed ∧
        declaredRuns .ios conditions none = .ok (formed.map TargetRun.label) := by
  intro h
  obtain ⟨formed, hFormed, hDeclared⟩ := h modelInRange [] (List.cons_ne_nil _ _) modelInRange_resolved (by decide) (by
    intro spec hSpec
    cases hSpec
    rfl)
  obtain ⟨majors, hMajors, -⟩ := parsed_majors_iff modelInRange_parse
  have hLabels : declaredRuns .ios modelInRange none = .ok (majors.map (majorLabel .ios)) := by
    have hRead : readSpec modelInRange "os" = .ok (some ⟨">=18 <20",
        [⟨some ⟨⟨18, 0, 0⟩, true⟩, some ⟨⟨20, 0, 0⟩, false⟩, false⟩]⟩) := rfl
    have hNe : modelInRange ≠ [] := List.cons_ne_nil _ _
    simp [declaredRuns, fieldsOf, hRead, hNe, get_modelInRange, listed, families, collect, declaredLabels, hMajors, nameOf,
      VersionRange.bounded, Except.map]
  have hRuns : formTargetRuns id (mobileArgs "app" .ios modelInRange [] none) =
      .ok [{ target := "app", platform := .ios, model := some "iPhone 16", outcome := .failed, conditioned := true,
             spec := some ⟨">=18 <20", [⟨some ⟨⟨18, 0, 0⟩, true⟩, some ⟨⟨20, 0, 0⟩, false⟩, false⟩]⟩,
             reason := "runsOn.ios.model  \"iPhone 16\"  available: no device" }] := rfl
  cases hRuns.symm.trans hFormed
  obtain hSame := Except.ok.inj (hLabels.symm.trans hDeclared)
  obtain ⟨m, -, hEmpty⟩ := List.mem_map.mp (hSame ▸ List.mem_cons_self : "" ∈ majors.map (majorLabel .ios))
  simp [majorLabel] at hEmpty

end Bajutsu.Devices
