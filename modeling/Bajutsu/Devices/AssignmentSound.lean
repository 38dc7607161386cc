import Bajutsu.Devices.Assignment

/-!
# Soundness of device assignment

The runs a target forms are well formed, so a combination of them meets what the claiming loop asks;
soundness of the combination is then uniformity of its steps.
-/

namespace Bajutsu.Devices

open PyValue

section Forming

variable {lower : String → String}

/-! ## Formed runs -/

/-- A run keeps what its base says and names a major version only beside a range. -/
structure TargetRun.Keeps (base run : TargetRun) : Prop where
  platform : run.platform = base.platform
  spec : run.spec = base.spec
  conditioned : run.conditioned = base.conditioned
  major : base.spec = none → run.major = none

theorem TargetRun.Keeps.at (base : TargetRun) (coords : List (String × String)) (outcome : Outcome)
    (reason : String) : base.Keeps (base.at coords outcome reason) := ⟨rfl, rfl, rfl, fun _ => rfl⟩

theorem TargetRun.Keeps.withFamily {base run : TargetRun} (h : base.Keeps run) (families : List String)
    (candidates seen : List DeviceFacts) (position : Nat) :
    base.Keeps (withFamily lower run families candidates seen position) := by
  rw [Devices.withFamily]
  split
  · exact h
  · dsimp only
    split <;> exact ⟨h.platform, h.spec, h.conditioned, h.major⟩

theorem versionRuns_keeps {base : TargetRun} {spec : VersionSpec} (hSpec : base.spec = some spec)
    {coords : List (String × String)} {candidates : List DeviceFacts} {versionField : String}
    {runs : List TargetRun} (h : versionRuns base coords spec candidates versionField = .ok runs) :
    ∀ run ∈ runs, base.Keeps run := by
  intro run hRun
  rw [versionRuns] at h
  split at h
  · cases h
  · cases h
    rcases List.mem_append.mp hRun with hRun | hRun
    · obtain ⟨m, -, rfl⟩ := List.mem_map.mp hRun
      exact ⟨rfl, rfl, rfl, fun hNone => by rw [hNone] at hSpec; cases hSpec⟩
    · split at hRun
      · rw [List.mem_singleton] at hRun
        rw [hRun]
        exact .at base coords _ _
      · cases hRun

theorem formedRuns_keeps {base : TargetRun} {coords : List (String × String)} {families : List String}
    {candidates seen : List DeviceFacts} {versionField : String} {runs : List TargetRun}
    (h : formedRuns lower base coords families candidates seen versionField = .ok runs) :
    ∀ run ∈ runs, base.Keeps run := by
  intro run hRun
  have hPlaced (formed : List TargetRun) (hFormed : ∀ r ∈ formed, base.Keeps r)
      (hMem : run ∈ formed.map fun r =>
        if families = [] then r else withFamily lower r families candidates seen coords.length) :
      base.Keeps run := by
    obtain ⟨r, hr, rfl⟩ := List.mem_map.mp hMem
    split
    · exact hFormed r hr
    · exact (hFormed r hr).withFamily families candidates seen coords.length
  rw [formedRuns] at h
  cases hSpec : base.spec with
  | none =>
    simp only [hSpec, Except.map, Except.ok.injEq] at h
    refine hPlaced [base.at coords] ?_ (by rwa [h])
    simpa using TargetRun.Keeps.at base coords _ _
  | some spec =>
    cases hVersions : versionRuns base coords spec candidates versionField with
    | error e => simp [hSpec, hVersions, Except.map] at h
    | ok formed =>
      simp only [hSpec, hVersions, Except.map, Except.ok.injEq] at h
      exact hPlaced formed (versionRuns_keeps hSpec hVersions) (by rwa [h])

theorem forall_mem_gather {α : Type} {P : TargetRun → Prop}
    {runsOf : α → Except RunsError (List TargetRun)} {as : List α}
    (hEach : ∀ a ∈ as, ∀ own, runsOf a = .ok own → ∀ run ∈ own, P run) {runs : List TargetRun}
    (h : gather runsOf as = .ok runs) : ∀ run ∈ runs, P run := by
  induction as generalizing runs with
  | nil =>
    cases h
    simp
  | cons a as ih =>
    obtain ⟨hHead, hTail⟩ := List.forall_mem_cons.mp hEach
    rw [gather] at h
    cases hOwn : runsOf a with
    | error e => simp [hOwn] at h
    | ok own =>
      cases hMore : gather runsOf as with
      | error e => simp [hOwn, hMore, Except.map] at h
      | ok more =>
        simp only [hOwn, hMore, Except.map, Except.ok.injEq] at h
        subst h
        exact List.forall_mem_append.mpr ⟨hHead own hOwn, ih hTail hMore⟩

/-- What forming promises of a run of a platform. -/
def TargetRun.FormedOn (platform : Platform) (run : TargetRun) : Prop :=
  run.Formed ∧ run.platform = platform

theorem readSpec_text {conditions : Conditions} {field : String} {spec : Option VersionSpec}
    (h : readSpec conditions field = .ok spec) :
    ∀ s, spec = some s → VersionSpec.parse s.text = .ok s := by
  rintro s rfl
  rw [readSpec] at h
  split at h
  · split at h
    · rename_i text spec hParse
      cases h
      rw [(parse_cases hParse).1, hParse]
    · cases h
  · cases h

theorem TargetRun.Keeps.formedOn {base run : TargetRun} (h : base.Keeps run)
    (hConditioned : base.conditioned = true)
    (hText : ∀ s, base.spec = some s → VersionSpec.parse s.text = .ok s) :
    run.FormedOn base.platform := by
  refine ⟨⟨fun s hs => hText s (h.spec ▸ hs), fun hs => h.major (h.spec ▸ hs), fun hNot => ?_⟩,
    h.platform⟩
  rw [h.conditioned, hConditioned] at hNot
  cases hNot

theorem modelRuns_formedOn {target : String} {platform : Platform} {fields : String × String}
    {spec : Option VersionSpec} (hText : ∀ s, spec = some s → VersionSpec.parse s.text = .ok s)
    {families : List String} {devices : List DeviceFacts} {kind : Option String}
    {kindCoords : List (String × String)} {modelListed : Bool} {model : Option String}
    {runs : List TargetRun}
    (h : modelRuns lower target platform fields spec families devices kind kindCoords modelListed
      model = .ok runs) :
    ∀ run ∈ runs, run.FormedOn platform := by
  intro run hRun
  simp only [modelRuns] at h
  split at h
  · cases h
    rw [List.mem_singleton] at hRun
    subst hRun
    exact (TargetRun.Keeps.at _ _ _ _).formedOn rfl hText
  · split at h
    · cases h
      rw [List.mem_singleton] at hRun
      subst hRun
      exact (TargetRun.Keeps.at _ _ _ _).formedOn rfl hText
    · exact (formedRuns_keeps h run hRun).formedOn rfl hText

theorem runsOfKind_formedOn {target : String} {platform : Platform} {fields : String × String}
    {conditions : Conditions} {devices : List DeviceFacts} {kindListed : Bool} {kind : Option String}
    {runs : List TargetRun}
    (h : runsOfKind lower target platform fields conditions devices kindListed kind = .ok runs) :
    ∀ run ∈ runs, run.FormedOn platform := by
  simp only [runsOfKind] at h
  split at h
  · cases h
    simp [TargetRun.FormedOn, TargetRun.Formed.mk]
  · rw [kindRuns] at h
    dsimp only at h
    split at h
    · cases h
    · rename_i spec hSpec
      exact forall_mem_gather (fun model _ own hOwn => modelRuns_formedOn (readSpec_text hSpec) hOwn) h

theorem webRun_formedOn {target : String} {browsers : List DeviceFacts} {spec : Option VersionSpec}
    (hText : ∀ s, spec = some s → VersionSpec.parse s.text = .ok s) {engineListed : Bool}
    {name : Option String} {runs : List TargetRun}
    (h : webRun target browsers spec engineListed name = .ok runs) :
    ∀ run ∈ runs, run.FormedOn .web := by
  have hFormed (run : TargetRun) (hSpec : run.spec = spec) (hMajor : run.major = none)
      (hWeb : run.platform = .web) : run.FormedOn .web :=
    ⟨⟨fun s hs => hText s (hSpec ▸ hs), fun _ => hMajor, fun _ hNot => absurd hWeb hNot⟩, hWeb⟩
  intro run hRun
  simp only [webRun] at h
  split at h
  · cases h
    rw [List.mem_singleton] at hRun
    exact hFormed run (by rw [hRun]) (by rw [hRun]) (by rw [hRun])
  · split at h
    · cases h
    · split at h <;> cases h <;> rw [List.mem_singleton] at hRun <;>
        exact hFormed run (by rw [hRun]) (by rw [hRun]) (by rw [hRun])

/-- Every run a target forms is well formed and of the target's platform. -/
theorem formTargetRuns_formedOn {args : TargetArgs} {runs : List TargetRun}
    (h : formTargetRuns lower args = .ok runs) : ∀ run ∈ runs, run.FormedOn args.platform := by
  rw [formTargetRuns] at h
  split at h
  · rename_i hWeb
    rw [webRuns] at h
    dsimp only at h
    split at h
    · cases h
    · rename_i spec hSpec
      rw [hWeb]
      exact forall_mem_gather (fun name _ own hOwn => webRun_formedOn (readSpec_text hSpec) hOwn) h
  · split at h
    · cases h
      simp [TargetRun.FormedOn, TargetRun.Formed.mk]
    · split at h
      · cases h
        simp [TargetRun.FormedOn, TargetRun.Formed.mk]
      · exact forall_mem_gather (fun kind _ own hOwn => runsOfKind_formedOn hOwn) h

/-! ## Combinations -/

theorem mem_product_iff {α : Type} {lists : List (List α)} {tuple : List α} :
    tuple ∈ product lists ↔ List.Forall₂ (fun x xs => x ∈ xs) tuple lists := by
  induction lists generalizing tuple with
  | nil => simp [product]
  | cons xs lists ih =>
    rw [product, List.mem_flatMap]
    constructor
    · rintro ⟨x, hx, hTuple⟩
      obtain ⟨rest, hRest, rfl⟩ := List.mem_map.mp hTuple
      exact .cons hx (ih.mp hRest)
    · rintro (_ | ⟨hx, hRest⟩)
      exact ⟨_, hx, List.mem_map_of_mem (ih.mpr hRest)⟩

/-- A target with the conditions its runs are formed from. -/
abbrev Scenario := List (TargetArgs × Participant)

/-- What the planner promises of the participants it combines. -/
structure Scenario.Planned (lower : String → String) (scenario : Scenario) (pools : Pools) : Prop where
  runs : ∀ item ∈ scenario, formTargetRuns lower item.1 = .ok item.2.runs
  names : (scenario.map fun item => item.2.first).Nodup
  udids : ∀ pool devices, get pools pool = some devices → (devices.map DeviceFacts.udid).Nodup
  web : ∀ item ∈ scenario, item.1.platform = .web → get pools item.2.pool = none

def Scenario.participants (scenario : Scenario) : List Participant := scenario.map Prod.snd

theorem Scenario.Planned.wellFormed {scenario : Scenario} {pools : Pools}
    (h : scenario.Planned lower pools) {runs : List TargetRun}
    (hRuns : runs ∈ product (scenario.participants.map Participant.runs)) :
    WellFormed (scenario.participants.zip runs) pools := by
  have hZip := mem_product_iff.mp hRuns
  have hLength : runs.length = scenario.participants.length := by simpa using hZip.length_eq
  have hMember : ∀ m ∈ scenario.participants.zip runs,
      ∃ item ∈ scenario, m.1 = item.2 ∧ m.2.FormedOn item.1.platform := by
    rintro ⟨p, run⟩ hm
    obtain ⟨i, hi, hEq⟩ := List.getElem_of_mem hm
    rw [List.getElem_zip, Prod.mk.injEq] at hEq
    obtain ⟨rfl, rfl⟩ := hEq
    have hBound : i < scenario.length := by
      simp only [List.length_zip, participants, List.length_map] at hi
      omega
    refine ⟨scenario[i], List.getElem_mem hBound, by simp [participants], ?_⟩
    have hOwn := hZip.get (i := i) (by simp at hi; omega) (by simpa [participants] using hBound)
    simp only [participants, List.map_map, List.get_eq_getElem, List.getElem_map,
      Function.comp_apply] at hOwn
    exact formTargetRuns_formedOn (h.runs _ (List.getElem_mem hBound)) _ hOwn
  refine ⟨?_, fun m _ => ?_, fun m hm => ?_, fun m hm hWeb => ?_⟩
  · have hFirst : (scenario.participants.zip runs).map (fun m => m.1.first) =
        scenario.map fun item => item.2.first := by
      have hMap := congrArg (List.map Participant.first)
        (@List.map_fst_zip _ _ scenario.participants runs (by omega))
      rwa [List.map_map, participants, List.map_map] at hMap
    rw [hFirst]
    exact h.names
  · rw [poolOf]
    cases hPool : get pools m.1.pool with
    | none => exact List.nodup_nil
    | some devices => exact h.udids _ devices hPool
  · obtain ⟨item, -, -, hFormed, -⟩ := hMember m hm
    exact hFormed
  · obtain ⟨item, hItem, hOwn, -, hPlatform⟩ := hMember m hm
    rw [hOwn]
    exact h.web item hItem (hPlatform ▸ hWeb)

variable {repr : String → String}

theorem assign_cases {members : List Member} {pools : Pools}
    (h : (assign lower repr members pools).outcome = .run) :
    ∃ final, claimAll lower repr pools {} (orderOf members pools) = .ok final ∧
      (assign lower repr members pools).devices = final.devices := by
  rw [assign, ← orderOf] at h ⊢
  cases hAll : claimAll lower repr pools {} (orderOf members pools) with
  | error reason => simp [hAll] at h
  | ok final => exact ⟨final, rfl, rfl⟩

theorem combineRuns_cases {participants : List Participant} {pools : Pools} {runs : List TargetRun}
    (h : (combineRuns lower repr participants pools runs).outcome = .run) :
    combineRuns lower repr participants pools runs =
      assign lower repr (participants.zip runs) pools := by
  rw [combineRuns] at h ⊢
  split at h
  · cases h
  · split at h
    · cases h
    · rename_i hFailed hSkipped
      rw [if_neg hFailed, if_neg hSkipped]

theorem combineRuns_runs {participants : List Participant} {pools : Pools} {runs : List TargetRun}
    (hLength : runs.length = participants.length) :
    (combineRuns lower repr participants pools runs).runs = runs := by
  rw [combineRuns]
  split
  · rfl
  · split
    · rfl
    · rw [assign]
      have hSnd : (participants.zip runs).map Prod.snd = runs := List.map_snd_zip (by omega)
      cases claimAll lower repr pools {}
        (claimOrder ((groupsOf (participants.zip runs) pools).map Prod.snd)) <;> exact hSnd

/-- Every combination that runs assigns devices soundly exactly when no step of its claiming loop takes
devices of several models or releases for a conditioned run. -/
theorem assignment_sound_iff {scenario : Scenario} {pools : Pools}
    (hPlanned : scenario.Planned lower pools) :
    ∀ combo ∈ combine lower repr scenario.participants pools, combo.outcome = .run →
      (Sound lower (scenario.participants.zip combo.runs) pools combo.devices ↔
        StepsUniform lower repr (scenario.participants.zip combo.runs) pools) := by
  intro combo hCombo hOutcome
  obtain ⟨runs, hRuns, rfl⟩ := List.mem_map.mp hCombo
  have hLength : runs.length = scenario.participants.length := by
    simpa using (mem_product_iff.mp hRuns).length_eq
  rw [combineRuns_runs hLength]
  have hAssign := combineRuns_cases hOutcome
  rw [hAssign] at hOutcome ⊢
  obtain ⟨final, hAll, hDevices⟩ := assign_cases hOutcome
  rw [hDevices]
  exact sound_iff (hPlanned.wellFormed hRuns) hAll

end Forming

/-! ## A mixed group -/

def simulator (udid model release : String) (h : ∃ v, Version.parse release = .ok v) : DeviceFacts :=
  { udid := udid, platform := .ios, model := model, release := release, readable := h }

def simulators : List DeviceFacts :=
  [simulator "A" "iPhone 15" "17.0" ⟨⟨17, 0, 0⟩, rfl⟩, simulator "B" "iPhone 14" "16.0" ⟨⟨16, 0, 0⟩, rfl⟩,
    simulator "C" "iPhone SE" "15.0" ⟨⟨15, 0, 0⟩, rfl⟩]

def simulatorPool : Pools := [("xcuitest", simulators)]

theorem simulatorPool_udids (pool : String) (devices : List DeviceFacts)
    (h : get simulatorPool pool = some devices) : (devices.map DeviceFacts.udid).Nodup := by
  simp only [simulatorPool, get_cons, get_nil] at h
  split at h
  · cases h
    decide
  · cases h

def targetOn (target : String) (conditions : Conditions) (kind : Option String) : TargetArgs :=
  { target := target, platform := .ios, conditions := conditions, devices := simulators, kind := kind }

def simulatorRun (target : String) (model : Option String) (conditioned : Bool) : TargetRun :=
  { target := target, platform := .ios, model := model, kind := some "simulator",
    conditioned := conditioned }

/-- One target of one model. -/
def oneModel : Scenario :=
  [(targetOn "app" [("model", .one "iPhone 14")] (some "simulator"),
    ⟨"app", [], "xcuitest", [simulatorRun "app" (some "iPhone 14") true]⟩)]

theorem oneModel_planned : oneModel.Planned id simulatorPool where
  runs item hItem := by
    obtain rfl := List.mem_singleton.mp hItem
    rfl
  names := by decide
  udids := simulatorPool_udids
  web item hItem hWeb := by
    obtain rfl := List.mem_singleton.mp hItem
    cases hWeb

def oneModelCombination : Combination :=
  { runs := [simulatorRun "app" (some "iPhone 14") true], outcome := .run, devices := [("app", ["B"])] }

theorem oneModel_combine : combine id id oneModel.participants simulatorPool = [oneModelCombination] := rfl

theorem assignment_sound_oneModel :
    Sound id (oneModel.participants.zip oneModelCombination.runs) simulatorPool [("app", ["B"])] ↔
      StepsUniform id id (oneModel.participants.zip oneModelCombination.runs) simulatorPool :=
  assignment_sound_iff oneModel_planned oneModelCombination (by rw [oneModel_combine]; simp) rfl

/-- A target that lists the kind its neighbour runs on anyway: the two have one key. -/
def mixedKinds : Scenario :=
  [(targetOn "plain" [] (some "simulator"),
    ⟨"plain", [], "xcuitest", [simulatorRun "plain" none false]⟩),
   (targetOn "listed" [("kind", .many ["simulator"])] none,
    ⟨"listed", [], "xcuitest",
      [{ simulatorRun "listed" none true with coordinates := [("kind", "simulator")] }]⟩),
   (targetOn "other" [("model", .one "iPhone 15")] (some "simulator"),
    ⟨"other", [], "xcuitest", [simulatorRun "other" (some "iPhone 15") true]⟩)]

theorem mixedKinds_planned : mixedKinds.Planned id simulatorPool where
  runs item hItem := by
    simp only [mixedKinds, List.mem_cons, List.not_mem_nil, or_false] at hItem
    rcases hItem with rfl | rfl | rfl <;> rfl
  names := by decide
  udids := simulatorPool_udids
  web item hItem hWeb := by
    simp only [mixedKinds, List.mem_cons, List.not_mem_nil, or_false] at hItem
    rcases hItem with rfl | rfl | rfl <;> cases hWeb

def mixedCombination : Combination :=
  { runs := [simulatorRun "plain" none false,
      { simulatorRun "listed" none true with coordinates := [("kind", "simulator")] },
      simulatorRun "other" (some "iPhone 15") true],
    outcome := .run,
    devices := [("other", ["A"]), ("plain", ["B", "C"]), ("listed", ["B", "C"])] }

theorem mixedKinds_combine :
    combine id id mixedKinds.participants simulatorPool = [mixedCombination] := rfl

/-- The conditioned run takes two models: it shares its key with an unconditioned one. -/
theorem mixed_group_not_sound :
    ¬∀ (lower repr : String → String) (scenario : Scenario) (pools : Pools),
      scenario.Planned lower pools → ∀ combo ∈ combine lower repr scenario.participants pools,
        combo.outcome = .run → Sound lower (scenario.participants.zip combo.runs) pools combo.devices := by
  intro hAll
  have hSound := hAll id id mixedKinds simulatorPool mixedKinds_planned mixedCombination
    (by rw [mixedKinds_combine]; simp) rfl
  have hListed := hSound
    (⟨"listed", [], "xcuitest",
      [{ simulatorRun "listed" none true with coordinates := [("kind", "simulator")] }]⟩,
      { simulatorRun "listed" none true with coordinates := [("kind", "simulator")] })
    (by simp [mixedKinds, Scenario.participants, mixedCombination]) ["B", "C"] rfl
  obtain ⟨model, version, hUniform⟩ := hListed.uniform rfl
  have hOf (u : String) (hu : u ∈ ["B", "C"]) :
      ∃ d ∈ simulators, d.udid = u ∧ d.model = model := by
    obtain ⟨d, hd, hUdid, hModel, -⟩ := hUniform u hu
    exact ⟨d, hd, hUdid, hModel⟩
  have hFourteen : model = "iPhone 14" := by
    obtain ⟨d, hd, hUdid, rfl⟩ := hOf "B" (by simp)
    simp only [simulators, List.mem_cons, List.not_mem_nil, or_false] at hd
    rcases hd with rfl | rfl | rfl <;> simp [simulator] at hUdid ⊢
  have hSE : model = "iPhone SE" := by
    obtain ⟨d, hd, hUdid, rfl⟩ := hOf "C" (by simp)
    simp only [simulators, List.mem_cons, List.not_mem_nil, or_false] at hd
    rcases hd with rfl | rfl | rfl <;> simp [simulator] at hUdid ⊢
  rw [hFourteen] at hSE
  simp at hSE

end Bajutsu.Devices
