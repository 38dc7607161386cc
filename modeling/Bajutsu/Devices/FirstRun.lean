import Bajutsu.Devices.AssignmentSound
import Bajutsu.Devices.VersionMajors

/-!
# The first run

Where runs are not multiplied, one run is taken: of the first listed value, of the first listed family a fitting device
has, and of the newest major version. It is one of the runs that the same conditions form, and the device is one that
this run may take.
-/

namespace Bajutsu.Devices

open PyValue

inductive FirstRunError where
  | runs (e : RunsError)
  /-- `LookupError`. -/
  | lookup (message : String)
  /-- `assert chosen`. -/
  | assertion
  /-- No run to take the first of. -/
  | index

section FirstRun

variable (lower : String → String)

/-- The first listed kind; a single one is not a condition. -/
def firstKind (conditions : Conditions) : Option String :=
  match listed (get conditions "kind") with
  | (kinds, true) => kinds.headD none
  | (_, false) => none

def firstModel (conditions : Conditions) (modelField : String) : Option String :=
  (listed (get conditions modelField)).1.headD none

/-- The devices of the first kind and model in the range. -/
def fittingDevices (conditions : Conditions) (modelField : String) (spec : Option VersionSpec)
    (devices : List DeviceFacts) : List DeviceFacts :=
  devices.filter fun d =>
    matchesKind d (firstKind conditions) && matchesModel d (firstModel conditions modelField) && inRun d spec none

/-- The first family that a device is of. -/
def firstFamily (families : List String) (devices : List DeviceFacts) : Option String :=
  families.find? fun f => devices.any fun d => matchesFamily lower d (some f)

def noDeviceFits (platform : Platform) (fields : String × String) (conditions : Conditions) (spec : Option VersionSpec)
    (devices : List DeviceFacts) : String :=
  let named :=
    ((firstKind conditions).toList.map fun kind => "kind \"" ++ kind ++ "\"") ++
    ((firstModel conditions fields.1).toList.map fun model => fields.1 ++ " \"" ++ model ++ "\"") ++
    (if families conditions = [] then [] else ["family \"" ++ ", ".intercalate (families conditions) ++ "\""]) ++
    (spec.toList.map fun spec => fields.2 ++ " \"" ++ spec.text ++ "\"")
  "runsOn." ++ platform.name ++ " " ++ ", ".intercalate named ++ ": no available device fits; available: " ++
    available devices

/-- What is taken on a mobile platform whose range has been read. -/
def firstMobileRun (target : String) (platform : Platform) (fields : String × String) (conditions : Conditions)
    (devices : List DeviceFacts) (spec : Option VersionSpec) :
    Except FirstRunError (TargetRun × Option DeviceFacts) :=
  let fitting := fittingDevices conditions fields.1 spec devices
  let family := firstFamily lower (families conditions) fitting
  let ofFamily := fitting.filter fun d => matchesFamily lower d family
  if ofFamily = [] ∨ (families conditions ≠ [] ∧ family = none) then
    .error (.lookup (noDeviceFits platform fields conditions spec devices))
  else
    let run : TargetRun :=
      { target := target, platform := platform, model := firstModel conditions fields.1, spec := spec,
        major := if spec.isSome then (ofFamily.map fun d => d.version.major).max? else none,
        kind := firstKind conditions, family := family, conditioned := true }
    match eligibleSet lower run devices 1 with
    | some (d :: _) => .ok (run, some d)
    | _ => .error .assertion

def firstRun (target : String) (platform : Platform) (conditions : Conditions) (devices : List DeviceFacts)
    (engine : Option String) : Except FirstRunError (TargetRun × Option DeviceFacts) :=
  if platform = .web then
    match webRuns target conditions devices engine with
    | .error e => .error (.runs e)
    | .ok [] => .error .index
    | .ok (run :: _) => if run.outcome ≠ .run then .error (.lookup run.reason) else .ok (run, none)
  else
    match fieldsOf platform with
    | none => .ok ({ target := target, platform := platform }, devices.head?)
    | some fields =>
      if conditions = [] then .ok ({ target := target, platform := platform }, devices.head?)
      else
        match readSpec conditions fields.2 with
        | .error e => .error (.runs e)
        | .ok spec => firstMobileRun lower target platform fields conditions devices spec

variable {lower}

/-! ## Eligible sets of one -/

def FitsRun (lower : String → String) (run : TargetRun) (d : DeviceFacts) : Prop :=
  matchesKind d run.kind = true ∧ matchesFamily lower d run.family = true ∧ matchesModel d run.model = true ∧
    inRun d run.spec run.major = true

theorem mem_of_eligibleSet {run : TargetRun} (hRun : run.conditioned = true) {devices chosen : List DeviceFacts}
    (h : eligibleSet lower run devices 1 = some chosen) :
    chosen ≠ [] ∧ ∀ d ∈ chosen, d ∈ devices ∧ FitsRun lower run d := by
  obtain ⟨hLength, hPart, -, hFits⟩ := eligibleSet_conditioned hRun h
  exact ⟨List.ne_nil_of_length_pos hLength, fun d hd => ⟨hPart.subset hd, hFits d hd⟩⟩

theorem eligibleSet_of_fits {run : TargetRun} (hRun : run.conditioned = true) {devices : List DeviceFacts}
    {d : DeviceFacts} (hMem : d ∈ devices) (hFits : FitsRun lower run d) :
    ∃ first rest, eligibleSet lower run devices 1 = some (first :: rest) := by
  have hSome : (eligibleSet lower run devices 1).isSome := by
    simp only [eligibleSet, hRun, Bool.not_true, Bool.false_eq_true, if_false]
    obtain ⟨hKind, hFamily, hModel, hRange⟩ := hFits
    have hKept : d ∈ devices.filter fun d =>
        matchesKind d run.kind && matchesFamily lower d run.family && matchesModel d run.model &&
          inRun d run.spec run.major :=
      List.mem_filter.mpr ⟨hMem, by rw [hKind, hFamily, hModel, hRange]; rfl⟩
    generalize (devices.filter fun d => matchesKind d run.kind && matchesFamily lower d run.family &&
      matchesModel d run.model && inRun d run.spec run.major) = kept at hKept
    have hGroup := (mem_groupBy_iff DeviceFacts.model kept d.model _).mpr ⟨List.mem_map_of_mem hKept, rfl⟩
    rw [List.findSome?_isSome_iff]
    refine ⟨_, hGroup, ?_⟩
    have hIn : d ∈ kept.filter fun x => x.model = d.model := List.mem_filter.mpr ⟨hKept, by simp⟩
    generalize (kept.filter fun x => x.model = d.model) = group at hIn
    have hRelease := (mem_groupBy_iff DeviceFacts.version group d.version _).mpr ⟨List.mem_map_of_mem hIn, rfl⟩
    have hOne : 1 ≤ (group.filter fun x => x.version = d.version).length :=
      List.length_pos_of_mem (List.mem_filter.mpr ⟨hIn, by simp⟩)
    have hFitting : d.version ∈
        ((groupBy DeviceFacts.version group).filter fun release => 1 ≤ release.2.length).map Prod.fst :=
      List.mem_map.mpr ⟨_, List.mem_filter.mpr ⟨hRelease, by simpa using hOne⟩, rfl⟩
    dsimp only
    split
    · rename_i hNone
      rw [List.max?_eq_none_iff] at hNone
      rw [hNone] at hFitting
      cases hFitting
    · rename_i newest hNewest
      obtain ⟨⟨version, devices⟩, hMem, rfl⟩ := List.mem_map.mp (List.max?_mem hNewest)
      rw [get_of_mem (keys_groupBy _ _).1 (List.mem_filter.mp hMem).1]
      rfl
  obtain ⟨chosen, hChosen⟩ := Option.isSome_iff_exists.mp hSome
  cases chosen with
  | nil => exact absurd rfl (mem_of_eligibleSet hRun hChosen).left
  | cons first rest => exact ⟨first, rest, hChosen⟩

/-! ## What forming makes of a fitting device -/

/-- A family that is found first is found first by whatever finds it and no more. -/
theorem find?_of_imp {α : Type} {p q : α → Bool} {xs : List α} {x : α} (h : xs.find? p = some x)
    (hImp : ∀ y, q y = true → p y = true) (hq : q x = true) : xs.find? q = some x := by
  induction xs with
  | nil => cases h
  | cons y ys ih =>
    rw [List.find?_cons] at h ⊢
    cases hp : p y with
    | true =>
      rw [hp] at h
      cases h
      rw [hq]
    | false =>
      rw [hp] at h
      have hNot : q y = false := by
        rw [Bool.eq_false_iff]
        exact fun hy => Bool.false_ne_true (hp.symm.trans (hImp y hy))
      rw [hNot]
      exact ih h

theorem firstFamily_some {families : List String} {devices : List DeviceFacts} {f : String}
    (h : firstFamily lower families devices = some f) : ∃ d ∈ devices, matchesFamily lower d (some f) = true := by
  rw [firstFamily] at h
  have hAny := List.find?_some h
  exact List.any_eq_true.mp hAny

theorem versionRuns_mem {base : TargetRun} {spec : VersionSpec} (hWell : ∀ alt ∈ spec.alternatives, alt.WellFormed)
    (coords : List (String × String)) {candidates : List DeviceFacts} (versionField : String) {d : DeviceFacts}
    (hMem : d ∈ candidates) (hContains : spec.contains d.version = true) :
    ∃ runs coords', versionRuns base coords spec candidates versionField = .ok runs ∧
      base.at coords' .run "" (some d.version.major) ∈ runs := by
  obtain ⟨ms, hMajors, -, hNames⟩ := VersionSpec.majors_eq hWell
  obtain ⟨alt, hAlt, hIn⟩ := List.any_eq_true.mp hContains
  refine ⟨_, coords ++ [(versionField, majorLabel base.platform d.version.major)], by rw [versionRuns, hMajors], ?_⟩
  refine List.mem_append_left _ (List.mem_map.mpr ⟨d.version.major, ?_, rfl⟩)
  rw [Finset.mem_sort, List.mem_toFinset, List.mem_append]
  -- The side that holds the device is bounded and names its major, or open and takes it from the device.
  cases hBounded : alt.bounded with
  | true => exact .inl ((hNames _).mpr ⟨alt, hAlt, hBounded, d.version, rfl, hIn⟩)
  | false =>
    refine .inr (List.mem_map.mpr ⟨d, List.mem_filter.mpr ⟨hMem, ?_⟩, rfl⟩)
    exact List.any_eq_true.mpr ⟨alt, List.mem_filter.mpr ⟨hAlt, by simp [hBounded]⟩, hIn⟩

/-- A formed run that goes ahead, and asks of a device what the first run asks. -/
structure TargetRun.Agrees (first run : TargetRun) : Prop where
  outcome : run.outcome = .run
  kind : run.kind = first.kind
  model : run.model = first.model
  family : run.family = first.family
  major : run.major = first.major
  spec : run.spec = first.spec
  conditioned : run.conditioned = first.conditioned

theorem TargetRun.Agrees.eligibleSet {first run : TargetRun} (h : first.Agrees run) (devices : List DeviceFacts) :
    eligibleSet lower run devices 1 = eligibleSet lower first devices 1 := by
  rw [Devices.eligibleSet, Devices.eligibleSet, h.conditioned, h.kind, h.family, h.model, h.spec, h.major]

/-- The family of a run is the first one over all majors, where a device of its major has it. -/
theorem placed_agrees {base : TargetRun} {families : List String} {fitting candidates seen : List DeviceFacts}
    {coords : List (String × String)} {major : Option Nat} (hFamily : base.family = none)
    (hFirst : families ≠ [] → firstFamily lower families fitting ≠ none)
    (hPart : ∀ d ∈ candidates, inRun d base.spec major = true → d ∈ fitting)
    (hHas : ∀ f, firstFamily lower families fitting = some f →
      ∃ d ∈ candidates, inRun d base.spec major = true ∧ matchesFamily lower d (some f) = true) (position : Nat) :
    TargetRun.Agrees { base with family := firstFamily lower families fitting, major := major }
      (if families = [] then base.at coords .run "" major
        else withFamily lower (base.at coords .run "" major) families candidates seen position) := by
  by_cases hNone : families = []
  · subst hNone
    rw [if_pos rfl]
    exact ⟨rfl, rfl, rfl, hFamily, rfl, rfl, rfl⟩
  · rw [if_neg hNone]
    obtain ⟨f, hf⟩ := Option.ne_none_iff_exists'.mp (hFirst hNone)
    have hWinner : (families.find? fun g => (candidates.filter fun d => inRun d base.spec major).any fun d =>
        matchesFamily lower d (some g)) = some f := by
      refine find?_of_imp hf ?_ ?_
      · intro g hg
        obtain ⟨d, hd, hMatch⟩ := List.any_eq_true.mp hg
        obtain ⟨hMem, hIn⟩ := List.mem_filter.mp hd
        exact List.any_eq_true.mpr ⟨d, hPart d hMem hIn, hMatch⟩
      · obtain ⟨d, hMem, hIn, hMatch⟩ := hHas f hf
        exact List.any_eq_true.mpr ⟨d, List.mem_filter.mpr ⟨hMem, hIn⟩, hMatch⟩
    rw [withFamily, if_neg (by simp [TargetRun.at])]
    dsimp only [TargetRun.at]
    rw [hWinner]
    exact ⟨rfl, rfl, rfl, hf.symm, rfl, rfl, rfl⟩

theorem mem_gather {α : Type} {runsOf : α → Except RunsError (List TargetRun)} {as : List α} {runs : List TargetRun}
    (h : gather runsOf as = .ok runs) {a : α} (ha : a ∈ as) {own : List TargetRun} (hOwn : runsOf a = .ok own)
    {run : TargetRun} (hRun : run ∈ own) : run ∈ runs := by
  induction as generalizing runs with
  | nil => cases ha
  | cons b as ih =>
    rw [gather] at h
    cases hHead : runsOf b with
    | error e =>
      rw [hHead] at h
      cases h
    | ok head =>
      rw [hHead] at h
      cases hMore : gather runsOf as with
      | error e =>
        rw [hMore] at h
        cases h
      | ok more =>
        rw [hMore] at h
        cases h
        obtain rfl | hTail := List.mem_cons.mp ha
        · cases hHead.symm.trans hOwn
          exact List.mem_append_left _ hRun
        · exact List.mem_append_right _ (ih hMore hTail)

/-- The base of a model's runs. -/
def modelBase (target : String) (platform : Platform) (spec : Option VersionSpec) (kind model : Option String) : TargetRun :=
  { target := target, platform := platform, model := model, spec := spec, kind := kind, conditioned := true }

def majorOf (spec : Option VersionSpec) (d : DeviceFacts) : Option Nat :=
  if spec.isSome then some d.version.major else none

theorem inRun_majorOf {d : DeviceFacts} {spec : Option VersionSpec} (h : inRun d spec none = true) :
    inRun d spec (majorOf spec d) = true := by
  cases spec with
  | none => rfl
  | some spec => simpa [inRun, majorOf] using h

theorem inRun_none {d : DeviceFacts} {spec : Option VersionSpec} {major : Option Nat} (h : inRun d spec major = true) :
    inRun d spec none = true := by
  cases spec with
  | none => rfl
  | some spec =>
    have hContains : spec.contains d.version = true := by
      simp only [inRun, Bool.and_eq_true] at h
      exact h.left
    simpa [inRun] using hContains

theorem formedRuns_agrees {target : String} {platform : Platform} {spec : Option VersionSpec} {kind model : Option String}
    (hWell : ∀ s, spec = some s → ∀ alt ∈ s.alternatives, alt.WellFormed) (coords : List (String × String))
    {families : List String} {fitting candidates seen : List DeviceFacts} (versionField : String) {d : DeviceFacts}
    (hMem : d ∈ candidates) (hIn : inRun d spec none = true)
    (hFirst : families ≠ [] → firstFamily lower families fitting ≠ none)
    (hPart : ∀ x ∈ candidates, inRun x spec none = true → x ∈ fitting)
    (hHas : matchesFamily lower d (firstFamily lower families fitting) = true) :
    ∃ runs run, formedRuns lower (modelBase target platform spec kind model) coords families candidates seen
        versionField = .ok runs ∧ run ∈ runs ∧
      TargetRun.Agrees { modelBase target platform spec kind model with
        family := firstFamily lower families fitting, major := majorOf spec d } run := by
  have hPlaced (coords' : List (String × String)) := @placed_agrees lower (modelBase target platform spec kind model)
    families fitting candidates seen coords' (majorOf spec d) rfl hFirst (fun x hx hRange => hPart x hx (inRun_none hRange))
    (fun f hf => ⟨d, hMem, inRun_majorOf hIn, hf ▸ hHas⟩) coords.length
  cases spec with
  | none => exact ⟨_, _, rfl, List.mem_map_of_mem (List.mem_singleton.mpr rfl), hPlaced coords⟩
  | some spec =>
    have hContains : spec.contains d.version = true := by simpa [inRun] using hIn
    obtain ⟨runs, coords', hRuns, hRun⟩ := @versionRuns_mem (modelBase target platform (some spec) kind model) spec
      (hWell spec rfl) coords candidates versionField d hMem hContains
    have hFormed : formedRuns lower (modelBase target platform (some spec) kind model) coords families candidates seen
        versionField = .ok (runs.map fun run =>
          if families = [] then run else withFamily lower run families candidates seen coords.length) := by
      simp only [formedRuns, modelBase] at hRuns ⊢
      rw [hRuns]
      rfl
    exact ⟨_, _, hFormed, List.mem_map_of_mem hRun, hPlaced coords'⟩

theorem modelRuns_agrees {target : String} {platform : Platform} {fields : String × String} {spec : Option VersionSpec}
    (hWell : ∀ s, spec = some s → ∀ alt ∈ s.alternatives, alt.WellFormed) {families : List String}
    {devices : List DeviceFacts} {kind : Option String} (kindCoords : List (String × String)) (modelListed : Bool)
    {model : Option String} {d : DeviceFacts} (hMem : d ∈ devices) (hModel : matchesModel d model = true)
    (hIn : inRun d spec none = true) {fitting : List DeviceFacts}
    (hFirst : families ≠ [] → firstFamily lower families fitting ≠ none)
    (hPart : ∀ x ∈ devices, matchesModel x model = true → inRun x spec none = true → x ∈ fitting)
    (hHas : matchesFamily lower d (firstFamily lower families fitting) = true) :
    ∃ runs run, modelRuns lower target platform fields spec families devices kind kindCoords modelListed model = .ok runs ∧
      run ∈ runs ∧ TargetRun.Agrees { modelBase target platform spec kind model with
        family := firstFamily lower families fitting, major := majorOf spec d } run := by
  have hSeen : d ∈ devices.filter fun x => matchesModel x model := List.mem_filter.mpr ⟨hMem, hModel⟩
  have hCandidate : d ∈ ofFamilies lower families (devices.filter fun x => matchesModel x model) := by
    rw [ofFamilies]
    split
    · exact hSeen
    · rename_i hNe
      obtain ⟨f, hf⟩ := Option.ne_none_iff_exists'.mp (hFirst hNe)
      refine List.mem_filter.mpr ⟨hSeen, List.any_eq_true.mpr ⟨f, List.mem_of_find?_eq_some hf, ?_⟩⟩
      rw [hf] at hHas
      exact hHas
  simp only [modelRuns]
  rw [if_neg (fun h => List.ne_nil_of_mem hSeen h.right), if_neg (fun h => List.ne_nil_of_mem hCandidate h.right)]
  refine formedRuns_agrees hWell _ _ hCandidate hIn hFirst (fun x hx hRange => ?_) hHas
  have hSub : x ∈ devices.filter fun x => matchesModel x model := by
    rw [ofFamilies] at hx
    split at hx
    · exact hx
    · exact (List.mem_filter.mp hx).1
  obtain ⟨hDevice, hModelX⟩ := List.mem_filter.mp hSub
  exact hPart x hDevice hModelX hRange

/-! ## Conditions of a mobile platform -/

/-- The conditions as the config resolves them: a kind is a condition only if it is listed. -/
structure Conditions.Resolved (conditions : Conditions) : Prop where
  valid : conditions.Valid
  kind : ∀ value, get conditions "kind" ≠ some (.one value)

theorem listed_kind {conditions : Conditions} (h : conditions.Resolved) :
    listed (getOr conditions "kind" none) = listed (get conditions "kind") := by
  rw [getOr]
  cases hGet : get conditions "kind" with
  | none => rfl
  | some value =>
    cases value with
    | one value => exact absurd hGet (h.kind value)
    | many values =>
      dsimp only
      rw [if_neg (h.valid.lists "kind" values hGet).left]

theorem headD_mem {values : List String} (h : values ≠ []) : (values.map some).headD none ∈ values.map some := by
  cases values with
  | nil => exact absurd rfl h
  | cons value values => exact List.mem_cons_self

theorem firstKind_mem {conditions : Conditions} (h : conditions.Resolved) :
    firstKind conditions ∈ (listed (get conditions "kind")).1 := by
  rw [firstKind]
  cases hGet : get conditions "kind" with
  | none => exact List.mem_singleton.mpr rfl
  | some value =>
    cases value with
    | one value => exact absurd hGet (h.kind value)
    | many values => exact headD_mem (h.valid.lists "kind" values hGet).left

theorem firstModel_mem {conditions : Conditions} (h : conditions.Valid) (modelField : String) :
    firstModel conditions modelField ∈ (listed (get conditions modelField)).1 := by
  rw [firstModel]
  cases hGet : get conditions modelField with
  | none => exact List.mem_singleton.mpr rfl
  | some value =>
    cases value with
    | one value => exact List.mem_singleton.mpr rfl
    | many values => exact headD_mem (h.lists modelField values hGet).left

section Mobile

variable {target : String} {platform : Platform} {fields : String × String} {conditions : Conditions}
  {devices : List DeviceFacts} {engine : Option String}

/-- The same arguments, with no kind of the target's own. -/
def mobileArgs (target : String) (platform : Platform) (conditions : Conditions) (devices : List DeviceFacts)
    (engine : Option String) : TargetArgs :=
  { target := target, platform := platform, conditions := conditions, devices := devices, engine := engine }

theorem formTargetRuns_mobile (hFields : fieldsOf platform = some fields) (hNe : conditions ≠ [])
    (hResolved : conditions.Resolved) :
    formTargetRuns lower (mobileArgs target platform conditions devices engine) =
      gather (runsOfKind lower target platform fields conditions devices (listed (get conditions "kind")).2)
        (listed (get conditions "kind")).1 := by
  have hMobile : platform ≠ .web := by
    rintro rfl
    cases hFields
  rw [formTargetRuns, ← listed_kind hResolved]
  simp only [mobileArgs, if_neg hMobile, hFields]
  exact if_neg hNe

theorem formTargetRuns_ok (hFields : fieldsOf platform = some fields) (hNe : conditions ≠ [])
    (hResolved : conditions.Resolved) :
    ∃ runs, formTargetRuns lower (mobileArgs target platform conditions devices engine) = .ok runs := by
  obtain ⟨runs, hRuns, -⟩ := gather_eq_nil_iff _ (listed (get conditions "kind")).1
    fun kind _ => @runsOfKind_eq_nil_iff lower _ hResolved.valid target _ _ hFields devices
      (listed (get conditions "kind")).2 kind
  exact ⟨runs, (formTargetRuns_mobile hFields hNe hResolved).trans hRuns⟩

theorem firstRun_mobile (hFields : fieldsOf platform = some fields) (hNe : conditions ≠ [])
    {spec : Option VersionSpec} (hSpec : readSpec conditions fields.2 = .ok spec) :
    firstRun lower target platform conditions devices engine =
      firstMobileRun lower target platform fields conditions devices spec := by
  have hMobile : platform ≠ .web := by
    rintro rfl
    cases hFields
  simp only [firstRun, if_neg hMobile, hFields, if_neg hNe, hSpec]

theorem readSpec_ok (hFields : fieldsOf platform = some fields) (hValid : conditions.Valid) :
    ∃ spec, readSpec conditions fields.2 = .ok spec ∧ ∀ s, spec = some s → ∀ alt ∈ s.alternatives, alt.WellFormed := by
  have hRange : fields.2 ∈ ["os", "apiLevel", "browser.version"] := by
    cases platform <;> cases hFields <;> decide
  obtain ⟨hSpec, -⟩ | ⟨text, spec, -, hParse, hSpec⟩ := readSpec_cases hValid hRange
  · exact ⟨none, hSpec, nofun⟩
  · refine ⟨some spec, hSpec, fun s hs => ?_⟩
    cases hs
    exact (parse_cases hParse).right

theorem runsOfKind_models {kindListed : Bool} {kind : Option String} (hDevices : ofKind devices kind ≠ [])
    {spec : Option VersionSpec} (hSpec : readSpec conditions fields.2 = .ok spec) :
    ∃ kindCoords, runsOfKind lower target platform fields conditions devices kindListed kind =
      gather (modelRuns lower target platform fields spec (families conditions) (ofKind devices kind) kind kindCoords
        (listed (get conditions fields.1)).2) (listed (get conditions fields.1)).1 := by
  have hRuns (kindCoords : List (String × String)) :
      kindRuns lower target platform fields conditions (ofKind devices kind) kind kindCoords =
        gather (modelRuns lower target platform fields spec (families conditions) (ofKind devices kind) kind kindCoords
          (listed (get conditions fields.1)).2) (listed (get conditions fields.1)).1 := by
    simp only [kindRuns, hSpec]
  simp only [runsOfKind]
  rw [if_neg fun h => hDevices h.right]
  exact ⟨_, hRuns _⟩

/-- A run that the conditions form agrees with the first run of a device that fits. -/
theorem formTargetRuns_agrees (hFields : fieldsOf platform = some fields) (hNe : conditions ≠ [])
    (hResolved : conditions.Resolved) {spec : Option VersionSpec} (hSpec : readSpec conditions fields.2 = .ok spec)
    {d : DeviceFacts} (hd : d ∈ fittingDevices conditions fields.1 spec devices)
    (hFirst : families conditions ≠ [] →
      firstFamily lower (families conditions) (fittingDevices conditions fields.1 spec devices) ≠ none)
    (hHas : matchesFamily lower d
      (firstFamily lower (families conditions) (fittingDevices conditions fields.1 spec devices)) = true) :
    ∃ runs run, formTargetRuns lower (mobileArgs target platform conditions devices engine) = .ok runs ∧ run ∈ runs ∧
      TargetRun.Agrees { modelBase target platform spec (firstKind conditions) (firstModel conditions fields.1) with
        family := firstFamily lower (families conditions) (fittingDevices conditions fields.1 spec devices),
        major := majorOf spec d } run := by
  obtain ⟨spec', hSpec', hWell⟩ := readSpec_ok hFields hResolved.valid
  cases hSpec.symm.trans hSpec'
  obtain ⟨hDevice, hFits⟩ := List.mem_filter.mp hd
  simp only [Bool.and_eq_true] at hFits
  obtain ⟨⟨hKind, hModel⟩, hIn⟩ := hFits
  have hOfKind : d ∈ ofKind devices (firstKind conditions) := List.mem_filter.mpr ⟨hDevice, hKind⟩
  obtain ⟨kindCoords, hModels⟩ := @runsOfKind_models lower target platform fields conditions devices
    (listed (get conditions "kind")).2 (firstKind conditions) (List.ne_nil_of_mem hOfKind) spec hSpec
  obtain ⟨ofModel, run, hOfModel, hRun, hAgrees⟩ := @modelRuns_agrees lower target platform fields spec hWell
    (families conditions) (ofKind devices (firstKind conditions)) (firstKind conditions) kindCoords
    (listed (get conditions fields.1)).2 (firstModel conditions fields.1) d hOfKind hModel hIn
    (fittingDevices conditions fields.1 spec devices) hFirst (fun x hx hModelX hRange => by
      obtain ⟨hDeviceX, hKindX⟩ := List.mem_filter.mp hx
      exact List.mem_filter.mpr ⟨hDeviceX, by rw [hKindX, hModelX, hRange]; rfl⟩) hHas
  obtain ⟨own, hOwn, -⟩ := @runsOfKind_eq_nil_iff lower _ hResolved.valid target _ _ hFields devices
    (listed (get conditions "kind")).2 (firstKind conditions)
  obtain ⟨runs, hRuns⟩ := @formTargetRuns_ok lower target platform fields conditions devices engine hFields hNe hResolved
  refine ⟨runs, run, hRuns, ?_, hAgrees⟩
  rw [formTargetRuns_mobile hFields hNe hResolved] at hRuns
  refine mem_gather hRuns (firstKind_mem hResolved) hOwn ?_
  rw [hModels] at hOwn
  exact mem_gather hOwn (firstModel_mem hResolved.valid fields.1) hOfModel hRun

/-- What a run that goes ahead has taken from the conditions. -/
structure TargetRun.Goes (spec : Option VersionSpec) (families : List String) (run : TargetRun) : Prop where
  conditioned : run.conditioned = true
  spec : run.spec = spec
  family : families ≠ [] → ∃ f ∈ families, run.family = some f

theorem formedRuns_map {base : TargetRun} {coords : List (String × String)} {families : List String}
    {candidates seen : List DeviceFacts} {versionField : String} {runs : List TargetRun}
    (h : formedRuns lower base coords families candidates seen versionField = .ok runs) :
    ∃ formed : List TargetRun, runs = formed.map fun run =>
      if families = [] then run else withFamily lower run families candidates seen coords.length := by
  cases hSpec : base.spec with
  | none =>
    simp only [formedRuns, hSpec, Except.map, Except.ok.injEq] at h
    exact ⟨_, h.symm⟩
  | some spec =>
    cases hVersions : versionRuns base coords spec candidates versionField with
    | error e => simp [formedRuns, hSpec, hVersions, Except.map] at h
    | ok formed =>
      simp only [formedRuns, hSpec, hVersions, Except.map, Except.ok.injEq] at h
      exact ⟨formed, h.symm⟩

theorem withFamily_goes {run : TargetRun} {families : List String} {candidates seen : List DeviceFacts} {position : Nat}
    (h : (withFamily lower run families candidates seen position).outcome = .run) :
    ∃ f ∈ families, (withFamily lower run families candidates seen position).family = some f := by
  rw [withFamily] at h ⊢
  by_cases hRun : run.outcome = .run
  · rw [if_neg (not_not.mpr hRun)] at h ⊢
    cases hWinner : families.find? fun f =>
        (candidates.filter fun d => inRun d run.spec run.major).any fun d => matchesFamily lower d (some f) with
    | none =>
      simp only [hWinner] at h
      cases h
    | some winner =>
      simp only [hWinner]
      exact ⟨winner, List.mem_of_find?_eq_some hWinner, rfl⟩
  · rw [if_pos hRun] at h
    exact absurd h hRun

theorem modelRuns_goes {spec : Option VersionSpec} {families : List String} {kind : Option String}
    {kindCoords : List (String × String)} {modelListed : Bool} {model : Option String} {runs : List TargetRun}
    (h : modelRuns lower target platform fields spec families devices kind kindCoords modelListed model = .ok runs) :
    ∀ run ∈ runs, run.outcome = .run → run.Goes spec families := by
  intro run hRun hOutcome
  simp only [modelRuns] at h
  split at h
  · cases h
    rw [List.mem_singleton.mp hRun] at hOutcome
    cases hOutcome
  · split at h
    · cases h
      rw [List.mem_singleton.mp hRun] at hOutcome
      cases hOutcome
    · have hKeeps := formedRuns_keeps h run hRun
      refine ⟨hKeeps.conditioned, hKeeps.spec, fun hNe => ?_⟩
      obtain ⟨formed, rfl⟩ := formedRuns_map h
      obtain ⟨base, -, rfl⟩ := List.mem_map.mp hRun
      rw [if_neg hNe] at hOutcome ⊢
      exact withFamily_goes hOutcome

theorem formTargetRuns_goes (hFields : fieldsOf platform = some fields) (hNe : conditions ≠ [])
    (hResolved : conditions.Resolved) {spec : Option VersionSpec} (hSpec : readSpec conditions fields.2 = .ok spec)
    {runs : List TargetRun}
    (h : formTargetRuns lower (mobileArgs target platform conditions devices engine) = .ok runs) :
    ∀ run ∈ runs, run.outcome = .run → run.Goes spec (families conditions) := by
  rw [formTargetRuns_mobile hFields hNe hResolved] at h
  refine forall_mem_gather (fun kind _ own hOwn run hRun hOutcome => ?_) h
  simp only [runsOfKind] at hOwn
  split at hOwn
  · cases hOwn
    rw [List.mem_singleton.mp hRun] at hOutcome
    cases hOutcome
  · simp only [kindRuns, hSpec] at hOwn
    exact forall_mem_gather (fun model _ ofModel hOfModel => modelRuns_goes hOfModel) hOwn run hRun hOutcome

/-! ## The first run and the runs -/

/-- Where no device fits, or none of a listed family, no run that goes ahead has a device. -/
theorem no_device_of_lookup {spec : Option VersionSpec} {run : TargetRun} (hGoes : run.Goes spec (families conditions))
    (hKind : run.kind = firstKind conditions) (hModel : run.model = firstModel conditions fields.1)
    (hNone : (fittingDevices conditions fields.1 spec devices).filter (fun d => matchesFamily lower d
        (firstFamily lower (families conditions) (fittingDevices conditions fields.1 spec devices))) = [] ∨
      (families conditions ≠ [] ∧
        firstFamily lower (families conditions) (fittingDevices conditions fields.1 spec devices) = none))
    {chosen : List DeviceFacts} (hChosen : eligibleSet lower run devices 1 = some chosen) : False := by
  obtain ⟨hSome, hFits⟩ := mem_of_eligibleSet hGoes.conditioned hChosen
  obtain ⟨d, hd⟩ := List.exists_mem_of_ne_nil chosen hSome
  obtain ⟨hDevice, hKindD, hFamilyD, hModelD, hRange⟩ := hFits d hd
  have hFitting : d ∈ fittingDevices conditions fields.1 spec devices := by
    refine List.mem_filter.mpr ⟨hDevice, ?_⟩
    rw [← hKind, ← hModel, hKindD, hModelD, ← hGoes.spec, inRun_none hRange]
    rfl
  by_cases hNe : families conditions = []
  · have hFamily : firstFamily lower (families conditions) (fittingDevices conditions fields.1 spec devices) = none := by
      rw [hNe]
      rfl
    obtain hEmpty | ⟨hNot, -⟩ := hNone
    · rw [hFamily, List.filter_eq_nil_iff] at hEmpty
      exact hEmpty d hFitting rfl
    · exact hNot hNe
  · obtain ⟨f, hf, hIs⟩ := hGoes.family hNe
    rw [hIs] at hFamilyD
    have hSomeF : firstFamily lower (families conditions) (fittingDevices conditions fields.1 spec devices) ≠ none := by
      rw [firstFamily, ne_eq, List.find?_eq_none]
      exact fun hAll => hAll f hf (List.any_eq_true.mpr ⟨d, hFitting, hFamilyD⟩)
    obtain hEmpty | ⟨-, hNoFamily⟩ := hNone
    · obtain ⟨g, hg⟩ := Option.ne_none_iff_exists'.mp hSomeF
      obtain ⟨x, hx, hMatch⟩ := firstFamily_some hg
      rw [hg, List.filter_eq_nil_iff] at hEmpty
      exact hEmpty x hx hMatch
    · exact hSomeF hNoFamily

theorem exists_newest {spec : Option VersionSpec} {ofFamily : List DeviceFacts} (h : ofFamily ≠ []) :
    ∃ d ∈ ofFamily, (if spec.isSome then (ofFamily.map fun d => d.version.major).max? else none) = majorOf spec d := by
  cases spec with
  | none =>
    obtain ⟨d, hd⟩ := List.exists_mem_of_ne_nil ofFamily h
    exact ⟨d, hd, rfl⟩
  | some spec =>
    cases hMax : (ofFamily.map fun d => d.version.major).max? with
    | none =>
      rw [List.max?_eq_none_iff, List.map_eq_nil_iff] at hMax
      exact absurd hMax h
    | some major =>
      obtain ⟨d, hd, hMajor⟩ := List.mem_map.mp (List.max?_mem hMax)
      refine ⟨d, hd, ?_⟩
      rw [majorOf, hMajor]

theorem firstRun_agrees (hFields : fieldsOf platform = some fields) (hNe : conditions ≠ [])
    (hResolved : conditions.Resolved) {spec : Option VersionSpec} (hSpec : readSpec conditions fields.2 = .ok spec)
    (hFits : (fittingDevices conditions fields.1 spec devices).filter (fun d => matchesFamily lower d
        (firstFamily lower (families conditions) (fittingDevices conditions fields.1 spec devices))) ≠ [])
    (hFirst : families conditions ≠ [] →
      firstFamily lower (families conditions) (fittingDevices conditions fields.1 spec devices) ≠ none) :
    ∃ first d rest runs formed,
      firstMobileRun lower target platform fields conditions devices spec = .ok (first, some d) ∧
        eligibleSet lower first devices 1 = some (d :: rest) ∧
        formTargetRuns lower (mobileArgs target platform conditions devices engine) = .ok runs ∧ formed ∈ runs ∧
        first.Agrees formed := by
  obtain ⟨newest, hNewest, hMajor⟩ := @exists_newest spec _ hFits
  obtain ⟨hFitting, hFamily⟩ := List.mem_filter.mp hNewest
  obtain ⟨runs, formed, hRuns, hFormed, hAgrees⟩ := @formTargetRuns_agrees lower target platform fields conditions
    devices engine hFields hNe hResolved spec hSpec newest hFitting hFirst hFamily
  obtain ⟨hDevice, hMatch⟩ := List.mem_filter.mp hFitting
  simp only [Bool.and_eq_true] at hMatch
  obtain ⟨⟨hKind, hModel⟩, hIn⟩ := hMatch
  obtain ⟨d, rest, hChosen⟩ := @eligibleSet_of_fits lower { modelBase target platform spec (firstKind conditions)
      (firstModel conditions fields.1) with
    family := firstFamily lower (families conditions) (fittingDevices conditions fields.1 spec devices),
    major := majorOf spec newest } rfl devices newest hDevice ⟨hKind, hFamily, hModel, inRun_majorOf hIn⟩
  refine ⟨_, d, rest, runs, formed, ?_, hChosen, hRuns, hFormed, hAgrees⟩
  have hNot : ¬((fittingDevices conditions fields.1 spec devices).filter (fun d => matchesFamily lower d
        (firstFamily lower (families conditions) (fittingDevices conditions fields.1 spec devices))) = [] ∨
      (families conditions ≠ [] ∧
        firstFamily lower (families conditions) (fittingDevices conditions fields.1 spec devices) = none)) := by
    rintro (hEmpty | ⟨hListed, hNone⟩)
    · exact hFits hEmpty
    · exact hFirst hListed hNone
  rw [firstMobileRun]
  dsimp only
  rw [if_neg hNot, hMajor]
  simp only [modelBase] at hChosen ⊢
  rw [hChosen]

/-- The first run is one of the runs that the same conditions form, on a device that this run may take, and is always
found a device; where no device fits, no run that goes ahead for the first kind and model has one. -/
theorem first_run_formed (engine : Option String) (target : String) (devices : List DeviceFacts)
    (hFields : fieldsOf platform = some fields) (hNe : conditions ≠ []) (hResolved : conditions.Resolved) :
    (∀ first device, firstRun lower target platform conditions devices engine = .ok (first, device) →
      ∃ d runs formed chosen, device = some d ∧
        formTargetRuns lower (mobileArgs target platform conditions devices engine) = .ok runs ∧ formed ∈ runs ∧
        first.Agrees formed ∧ eligibleSet lower formed devices 1 = some chosen ∧ d ∈ chosen) ∧
    firstRun lower target platform conditions devices engine ≠ .error .assertion ∧
    ∀ message, firstRun lower target platform conditions devices engine = .error (.lookup message) →
      ∃ runs, formTargetRuns lower (mobileArgs target platform conditions devices engine) = .ok runs ∧
        ∀ run ∈ runs, run.outcome = .run → run.kind = firstKind conditions →
          run.model = firstModel conditions fields.1 →
          ¬∃ chosen, eligibleSet lower run devices 1 = some chosen ∧ chosen ≠ [] := by
  obtain ⟨spec, hSpec, -⟩ := readSpec_ok hFields hResolved.valid
  rw [firstRun_mobile hFields hNe hSpec]
  by_cases hNone : (fittingDevices conditions fields.1 spec devices).filter (fun d => matchesFamily lower d
        (firstFamily lower (families conditions) (fittingDevices conditions fields.1 spec devices))) = [] ∨
      (families conditions ≠ [] ∧
        firstFamily lower (families conditions) (fittingDevices conditions fields.1 spec devices) = none)
  · obtain ⟨message, hFails⟩ : ∃ message, firstMobileRun lower target platform fields conditions devices spec =
        .error (.lookup message) := ⟨_, if_pos hNone⟩
    rw [hFails]
    refine ⟨fun _ _ hIs => ?_, fun hIs => ?_, fun _ _ => ?_⟩
    · cases hIs
    · cases hIs
    obtain ⟨runs, hRuns⟩ := @formTargetRuns_ok lower target platform fields conditions devices engine hFields hNe hResolved
    refine ⟨runs, hRuns, fun run hRun hOutcome hKind hModel => ?_⟩
    rintro ⟨chosen, hChosen, -⟩
    exact no_device_of_lookup (formTargetRuns_goes hFields hNe hResolved hSpec hRuns run hRun hOutcome) hKind hModel hNone
      hChosen
  · obtain ⟨hFits, hFirst⟩ := not_or.mp hNone
    obtain ⟨first, d, rest, runs, formed, hTaken, hChosen, hRuns, hFormed, hAgrees⟩ :=
      @firstRun_agrees lower target platform fields conditions devices engine hFields hNe hResolved spec hSpec hFits
        fun hListed hNoFamily => hFirst ⟨hListed, hNoFamily⟩
    rw [hTaken]
    refine ⟨fun first' device hIs => ?_, fun hIs => ?_, fun _ hIs => ?_⟩
    · obtain ⟨rfl, rfl⟩ := Prod.mk.inj (Except.ok.inj hIs)
      exact ⟨d, runs, formed, d :: rest, rfl, hRuns, hFormed, hAgrees, (hAgrees.eligibleSet devices).trans hChosen,
        List.mem_cons_self⟩
    · cases hIs
    · cases hIs

end Mobile

end FirstRun

/-! ## A family that no device has -/

theorem parse_seventeen : ∃ v, Version.parse "17.0" = .ok v := ⟨⟨17, 0, 0⟩, rfl⟩

def phone : DeviceFacts :=
  { udid := "A", platform := .ios, model := "iPhone 15", release := "17.0", family := some "iphone",
    readable := parse_seventeen }

def onFamily (family : String) : Conditions := [("family", .one family)]

theorem onFamily_resolved (family : String) : (onFamily family).Resolved := by
  have hGet (field : String) : get (onFamily family) field = if "family" = field then some (.one family) else none := by
    rw [onFamily, get_cons, get_nil]
  constructor
  · constructor
    · intro field values h
      rw [hGet] at h
      split at h <;> cases h
    · intro field hField text h
      rw [hGet] at h
      split at h
      · rename_i hIs
        subst hIs
        simp at hField
      · cases h
  · intro value h
    rw [hGet, if_neg (by decide)] at h
    cases h

theorem first_run_formed_phone :
    ∃ first, firstRun id "app" .ios (onFamily "iphone") [phone] none = .ok (first, some phone) ∧
      ∃ d runs formed chosen, some phone = some d ∧
        formTargetRuns id (mobileArgs "app" .ios (onFamily "iphone") [phone] none) = .ok runs ∧ formed ∈ runs ∧
        first.Agrees formed ∧ eligibleSet id formed [phone] 1 = some chosen ∧ d ∈ chosen := by
  have hTaken : firstRun id "app" .ios (onFamily "iphone") [phone] none =
      .ok ({ target := "app", platform := .ios, family := some "iphone", conditioned := true }, some phone) := rfl
  exact ⟨_, hTaken, (first_run_formed none "app" [phone] rfl (List.cons_ne_nil _ _) (onFamily_resolved "iphone")).left _ _ hTaken⟩

/-- The run that fails for its family could still take a device. -/
theorem first_run_failed_family :
    ¬∀ (conditions : Conditions) (devices : List DeviceFacts), conditions ≠ [] → conditions.Resolved →
      ∀ message, firstRun id "app" .ios conditions devices none = .error (.lookup message) →
        ∃ runs, formTargetRuns id (mobileArgs "app" .ios conditions devices none) = .ok runs ∧
          ∀ run ∈ runs, run.kind = firstKind conditions → run.model = firstModel conditions "model" →
            ¬∃ chosen, eligibleSet id run devices 1 = some chosen ∧ chosen ≠ [] := by
  intro h
  obtain ⟨runs, hRuns, hNone⟩ := h (onFamily "ipad") [phone] (List.cons_ne_nil _ _) (onFamily_resolved "ipad") _ rfl
  have hFormed : formTargetRuns id (mobileArgs "app" .ios (onFamily "ipad") [phone] none) =
      .ok [{ target := "app", platform := .ios, outcome := .failed, conditioned := true,
             reason := "runsOn.ios.family \"ipad\"  available: iOS 17.0 \"iPhone 15\" (A)" }] := rfl
  cases hFormed.symm.trans hRuns
  exact hNone _ (List.mem_singleton.mpr rfl) rfl rfl ⟨[phone], rfl, List.cons_ne_nil _ _⟩

end Bajutsu.Devices
