import Bajutsu.Lib.PyValue
import Bajutsu.Devices.VersionSpec

/-!
# Forming runs and assigning devices

A target's `runsOn` conditions make one run for each listed value and each major version of a range;
a scenario's participants combine their runs, and each combination claims the devices its runs need.
Everything is a function of the conditions and of the device facts read before the run.
-/

namespace Bajutsu.Devices

open PyValue

inductive Platform where
  | ios
  | android
  | web
  | other (name : String)
  deriving DecidableEq

def Platform.name : Platform → String
  | ios => "ios"
  | android => "android"
  | web => "web"
  | other name => name

/-- What one available device is; every reader refuses a device whose release it cannot read. -/
structure DeviceFacts where
  udid : String
  platform : Platform
  model : String
  release : String
  avd : Option String := none
  family : Option String := none
  physical : Bool := false
  readable : ∃ v, Version.parse release = .ok v

namespace DeviceFacts

def version (d : DeviceFacts) : Version :=
  match Version.parse d.release with
  | .ok v => v
  | .error _ => ⟨0, 0, 0⟩

theorem parse_release (d : DeviceFacts) : Version.parse d.release = .ok d.version := by
  obtain ⟨v, hParse⟩ := d.readable
  rw [version, hParse]

def describe (d : DeviceFacts) : String :=
  if d.platform = .web then d.model ++ " " ++ d.release
  else
    (if d.platform = .ios then "iOS" else "API level") ++ " " ++ d.release ++ " \"" ++ d.model ++
      "\" (" ++ d.udid ++ ")"

end DeviceFacts

/-- A condition's value: one text, or a list of them. -/
inductive CondValue where
  | one (value : String)
  | many (values : List String)
  deriving DecidableEq

abbrev Conditions := List (String × CondValue)

inductive Outcome where
  | run
  | failed
  | notApplicable
  deriving DecidableEq

structure TargetRun where
  target : String
  platform : Platform
  model : Option String := none
  spec : Option VersionSpec := none
  major : Option Nat := none
  engine : Option String := none
  kind : Option String := none
  family : Option String := none
  coordinates : List (String × String) := []
  outcome : Outcome := .run
  reason : String := ""
  conditioned : Bool := false
  deriving DecidableEq

/-- Two target runs with equal keys draw on the same eligible set. -/
structure RunKey where
  platform : Platform
  model : Option String
  spec : String
  major : Option Nat
  engine : Option String
  kind : Option String
  family : Option String
  deriving DecidableEq

namespace TargetRun

def label (run : TargetRun) : String := " / ".intercalate (run.coordinates.map Prod.snd)

/-- `str(self.spec)`. -/
def specText (run : TargetRun) : String :=
  match run.spec with
  | none => "None"
  | some spec => spec.text

def key (run : TargetRun) : RunKey :=
  ⟨run.platform, run.model, run.specText, run.major, run.engine, run.kind, run.family⟩

end TargetRun

inductive RunsError where
  | version (e : VersionError)
  | noBrowser (kind : Option String)

def RunsError.message (repr : String → String) : RunsError → String
  | version e => e.message repr
  | noBrowser kind =>
    "no browser version was read for browser kind " ++
      match kind with
      | none => "None"
      | some kind => repr kind

/-- The condition fields a platform names a model and a version range by. -/
def fieldsOf : Platform → Option (String × String)
  | .ios => some ("model", "os")
  | .android => some ("avd", "apiLevel")
  | _ => none

def majorLabel (platform : Platform) (major : Nat) : String :=
  (if platform = .ios then "iOS " else "API ") ++ toString major

def available (devices : List DeviceFacts) : String :=
  if devices = [] then "no device" else ", ".intercalate (devices.map DeviceFacts.describe)

def matchesModel (device : DeviceFacts) (model : Option String) : Bool :=
  match model with
  | none => true
  | some model => if device.platform = .android then device.avd = some model else device.model = model

def matchesKind (device : DeviceFacts) (kind : Option String) : Bool :=
  match kind with
  | none => true
  | some kind => device.physical = decide (kind = "device")

def inRun (device : DeviceFacts) (spec : Option VersionSpec) (major : Option Nat) : Bool :=
  match spec with
  | none => true
  | some spec =>
    spec.contains device.version &&
      match major with
      | none => true
      | some major => device.version.major = major

def families (conditions : Conditions) : List String :=
  match get conditions "family" with
  | none => []
  | some (.one family) => [family]
  | some (.many families) => families

def listed : Option CondValue → List (Option String) × Bool
  | none => ([none], false)
  | some (.one value) => ([some value], false)
  | some (.many values) => (values.map some, true)

/-- `conditions.get(field) or default`: an empty text or list gives way to the default. -/
def getOr (conditions : Conditions) (field : String) (default : Option String) : Option CondValue :=
  match get conditions field with
  | some (.one value) => if value = "" then default.map .one else some (.one value)
  | some (.many values) => if values = [] then default.map .one else some (.many values)
  | none => default.map .one

/-- `VersionSpec.parse(raw) if isinstance(raw, str) else None`. -/
def readSpec (conditions : Conditions) (field : String) : Except RunsError (Option VersionSpec) :=
  match get conditions field with
  | some (.one text) =>
    match VersionSpec.parse text with
    | .ok spec => .ok (some spec)
    | .error e => .error (.version e)
  | _ => .ok none

section Forming

variable (lower : String → String)

def matchesFamily (device : DeviceFacts) (family : Option String) : Bool :=
  match family with
  | none => true
  | some family => lower (device.family.getD "") = family

def hasFamily (families : List String) (device : DeviceFacts) : Bool :=
  families.any fun f => matchesFamily lower device (some f)

def familyMiss (run : TargetRun) (families : List String) (seen : List DeviceFacts) : String :=
  let kind :=
    match run.kind with
    | none => ""
    | some kind => "kind \"" ++ kind ++ "\"  "
  "runsOn." ++ run.platform.name ++ "." ++ kind ++ "family \"" ++ ", ".intercalate families ++
    "\"  available: " ++ available seen

/-- `_with`: the base run at its coordinates; the family is never set there. -/
def TargetRun.at (base : TargetRun) (coords : List (String × String)) (outcome : Outcome := .run)
    (reason : String := "") (major : Option Nat := none) : TargetRun :=
  { base with coordinates := coords, outcome := outcome, reason := reason, major := major }

def withFamily (run : TargetRun) (families : List String) (candidates seen : List DeviceFacts)
    (position : Nat) : TargetRun :=
  if run.outcome ≠ .run then run
  else
    let inRunDevices := candidates.filter fun d => inRun d run.spec run.major
    match families.find? fun f => inRunDevices.any fun d => matchesFamily lower d (some f) with
    | none => { run with outcome := .failed, reason := familyMiss run families seen }
    | some winner =>
      let coords :=
        if 1 < families.length then
          run.coordinates.take position ++ ("family", winner) :: run.coordinates.drop position
        else run.coordinates
      { run with family := some winner, coordinates := coords }

/-- One run per major version: the bounded sides' majors and those the devices have on an open side. -/
def versionRuns (base : TargetRun) (coords : List (String × String)) (spec : VersionSpec)
    (candidates : List DeviceFacts) (versionField : String) : Except RunsError (List TargetRun) :=
  match spec.majors with
  | .error e => .error (.version e)
  | .ok bounded =>
    let openSides := spec.alternatives.filter fun alt => !alt.bounded
    let inOpen := candidates.filter fun d => openSides.any fun alt => alt.contains d.version
    let majors := (bounded ++ inOpen.map fun d => d.version.major).toFinset.sort
    let runs := majors.map fun m =>
      base.at (coords ++ [(versionField, majorLabel base.platform m)]) .run "" (some m)
    let skipped :=
      if openSides ≠ [] ∧ inOpen = [] then
        [base.at coords .notApplicable
          ("runsOn." ++ base.platform.name ++ "." ++ versionField ++ "  \"" ++ spec.text ++
            "\"  available: " ++ available candidates)]
      else []
    .ok (runs ++ skipped)

/-- Only a listed family's devices can win, so an open range forms no run from another's. -/
def ofFamilies (families : List String) (seen : List DeviceFacts) : List DeviceFacts :=
  if families = [] then seen else seen.filter (hasFamily lower families)

/-- The runs of one model that its devices and families do not fail. -/
def formedRuns (base : TargetRun) (coords : List (String × String)) (families : List String)
    (candidates seen : List DeviceFacts) (versionField : String) :
    Except RunsError (List TargetRun) :=
  let formed : Except RunsError (List TargetRun) :=
    match base.spec with
    | none => .ok [base.at coords]
    | some spec => versionRuns base coords spec candidates versionField
  formed.map fun runs => runs.map fun run =>
    if families = [] then run else withFamily lower run families candidates seen coords.length

/-- The runs of one model of one kind. -/
def modelRuns (target : String) (platform : Platform) (fields : String × String)
    (spec : Option VersionSpec) (families : List String) (devices : List DeviceFacts)
    (kind : Option String) (kindCoords : List (String × String)) (modelListed : Bool)
    (model : Option String) : Except RunsError (List TargetRun) :=
  let coords := kindCoords ++
    match model with
    | some m => if modelListed then [(fields.1, m)] else []
    | none => []
  let base : TargetRun :=
    { target := target, platform := platform, model := model, spec := spec, kind := kind,
      conditioned := true }
  let seen := devices.filter fun d => matchesModel d model
  if model ≠ none ∧ seen = [] then
    .ok [base.at coords .failed
      ("runsOn." ++ platform.name ++ "." ++ fields.1 ++ "  \"" ++ model.getD "" ++
        "\"  available: " ++ available devices)]
  else if families ≠ [] ∧ ofFamilies lower families seen = [] then
    .ok [base.at coords .failed (familyMiss base families seen)]
  else formedRuns lower base coords families (ofFamilies lower families seen) seen fields.2

/-- Concatenates the runs of each value of a list. -/
def gather {α : Type} (runsOf : α → Except RunsError (List TargetRun)) :
    List α → Except RunsError (List TargetRun)
  | [] => .ok []
  | a :: rest =>
    match runsOf a with
    | .error e => .error e
    | .ok runs => (gather runsOf rest).map fun more => runs ++ more

def kindRuns (target : String) (platform : Platform) (fields : String × String)
    (conditions : Conditions) (devices : List DeviceFacts) (kind : Option String)
    (kindCoords : List (String × String)) : Except RunsError (List TargetRun) :=
  let (models, modelListed) := listed (get conditions fields.1)
  match readSpec conditions fields.2 with
  | .error e => .error e
  | .ok spec =>
    gather
      (modelRuns lower target platform fields spec (families conditions) devices kind kindCoords
        modelListed)
      models

def ofKind (devices : List DeviceFacts) (kind : Option String) : List DeviceFacts :=
  devices.filter fun d => matchesKind d kind

/-- The body of the loop over the kinds: a listed kind the pool lacks fails. -/
def runsOfKind (target : String) (platform : Platform) (fields : String × String)
    (conditions : Conditions) (devices : List DeviceFacts) (kindListed : Bool)
    (kind : Option String) : Except RunsError (List TargetRun) :=
  let kindCoords :=
    match kind with
    | some k => if kindListed then [("kind", k)] else []
    | none => []
  if kindListed ∧ ofKind devices kind = [] then
    .ok [{ target := target, platform := platform, kind := kind, coordinates := kindCoords,
           outcome := .failed,
           reason := "runsOn." ++ platform.name ++ ".kind  \"" ++ kind.getD "None" ++
             "\"  available: " ++ available devices,
           conditioned := true }]
  else kindRuns lower target platform fields conditions (ofKind devices kind) kind kindCoords

/-- The run of one browser kind: a version range narrows it instead of multiplying it. -/
def webRun (target : String) (browsers : List DeviceFacts) (spec : Option VersionSpec)
    (engineListed : Bool) (name : Option String) : Except RunsError (List TargetRun) :=
  let coords :=
    match name with
    | some n => if engineListed then [("browser.kind", n)] else []
    | none => []
  let run : TargetRun :=
    { target := target, platform := .web, spec := spec, engine := name, coordinates := coords }
  match spec with
  | none => .ok [run]
  | some spec =>
    match browsers.find? fun b => some b.model = name with
    | none => .error (.noBrowser name)
    | some launched =>
      if spec.contains launched.version then .ok [run]
      else
        .ok [{ run with
          outcome := if spec.alternatives.any VersionRange.bounded then .failed else .notApplicable
          reason := "runsOn.browser.version  \"" ++ spec.text ++ "\"  launched: " ++
            launched.describe }]

def webRuns (target : String) (conditions : Conditions) (browsers : List DeviceFacts)
    (engine : Option String) : Except RunsError (List TargetRun) :=
  let (engines, engineListed) := listed (getOr conditions "browser.kind" engine)
  match readSpec conditions "browser.version" with
  | .error e => .error e
  | .ok spec => gather (webRun target browsers spec engineListed) engines

/-- What `form_target_runs` is given. -/
structure TargetArgs where
  target : String
  platform : Platform
  conditions : Conditions
  devices : List DeviceFacts
  engine : Option String := none
  kind : Option String := none

def formTargetRuns (args : TargetArgs) : Except RunsError (List TargetRun) :=
  if args.platform = .web then webRuns args.target args.conditions args.devices args.engine
  else
    match fieldsOf args.platform with
    | none => .ok [{ target := args.target, platform := args.platform, kind := args.kind }]
    | some fields =>
      if args.conditions = [] then
        .ok [{ target := args.target, platform := args.platform, kind := args.kind }]
      else
        let (kinds, kindListed) := listed (getOr args.conditions "kind" args.kind)
        gather
          (runsOfKind lower args.target args.platform fields args.conditions args.devices kindListed)
          kinds

/-! ## Combining and assigning -/

variable (repr : String → String)

/-- The devices *run* may take, all of one model and release unless it is unconditioned. -/
def eligibleSet (run : TargetRun) (devices : List DeviceFacts) (demand : Nat) :
    Option (List DeviceFacts) :=
  if !run.conditioned then
    if demand ≤ (ofKind devices run.kind).length then some (ofKind devices run.kind) else none
  else
    let kept := devices.filter fun d =>
      matchesKind d run.kind && matchesFamily lower d run.family && matchesModel d run.model &&
        inRun d run.spec run.major
    (groupBy DeviceFacts.model kept).findSome? fun item =>
      let byRelease := groupBy DeviceFacts.version item.2
      let fitting := byRelease.filter fun release => demand ≤ release.2.length
      match (fitting.map Prod.fst).max? with
      | none => none
      | some newest => get byRelease newest

/-- One device a scenario holds: a target, or a device group whose members share one device. -/
structure Participant where
  first : String
  others : List String := []
  pool : String
  runs : List TargetRun

def Participant.targets (p : Participant) : List String := p.first :: p.others

structure Combination where
  runs : List TargetRun
  outcome : Outcome
  reason : String := ""
  devices : List (String × List String) := []

abbrev Pools := List (String × List DeviceFacts)

/-- One participant with the run it takes in a combination. -/
abbrev Member := Participant × TargetRun

/-- The participants on a known pool, grouped by pool and key in participant order. -/
def groupsOf (members : List Member) (pools : Pools) : List ((String × RunKey) × List Member) :=
  groupBy (fun m => (m.1.pool, m.2.key)) (members.filter fun m => (get pools m.1.pool).isSome)

/-- The udids claimed on each pool and the sets recorded for each target. -/
structure Claims where
  claimed : List (String × List String) := []
  devices : List (String × List String) := []

def Claims.of (claims : Claims) (pool : String) : List String := (get claims.claimed pool).getD []

def freeDevices (pools : Pools) (claims : Claims) (pool : String) : List DeviceFacts :=
  ((get pools pool).getD []).filter fun d => d.udid ∉ claims.of pool

def Claims.record (claims : Claims) (members : List Member) (pool : String) (udids : List String) :
    Claims where
  claimed := set claims.claimed pool (claims.of pool ++ udids)
  devices := members.foldl (fun devices m => set devices m.1.first udids) claims.devices

/-- What a failed claim names: the run's label, its single family or any device. -/
def TargetRun.what (run : TargetRun) : String :=
  if run.label ≠ "" then run.label
  else
    match run.family with
    | some family => if family = "" then "any device" else "family \"" ++ family ++ "\""
    | none => "any device"

/-- One group claims its eligible set, or fails when no free devices fit. A group whose first run is
unconditioned takes its own lanes, unrecorded, while nothing on its pool is claimed. -/
def claimStep (pools : Pools) (claims : Claims) : List Member → Except String Claims
  | [] => .ok claims
  | first :: rest =>
    let members := first :: rest
    let pool := first.1.pool
    let run := first.2
    if !run.conditioned && claims.of pool = [] then .ok claims
    else
      let free := freeDevices pools claims pool
      match eligibleSet lower run free members.length with
      | some chosen => .ok (claims.record members pool (chosen.map DeviceFacts.udid))
      | none =>
        .error ("target " ++ repr run.target ++ ": no " ++ toString members.length ++
          " available device(s) fit " ++ run.what ++ " with the same model and release; available: " ++
          available free)

/-- The loop over the groups in claiming order. -/
def claimAll (pools : Pools) (claims : Claims) : List (List Member) → Except String Claims
  | [] => .ok claims
  | group :: groups =>
    match claimStep lower repr pools claims group with
    | .error reason => .error reason
    | .ok next => claimAll pools next groups

/-- A group claims as its first member's run does. -/
def conditionedFirst (group : List Member) : Bool :=
  match group with
  | [] => false
  | m :: _ => m.2.conditioned

/-- `sorted(groups.values(), key=lambda members: not runs[members[0]].conditioned)`: stable, so
conditioned groups first, each kind in the order its first member stands in. -/
def claimOrder (groups : List (List Member)) : List (List Member) :=
  groups.filter conditionedFirst ++ groups.filter fun group => !conditionedFirst group

def assign (members : List Member) (pools : Pools) : Combination :=
  match claimAll lower repr pools {} (claimOrder ((groupsOf members pools).map Prod.snd)) with
  | .ok claims => { runs := members.map Prod.snd, outcome := .run, devices := claims.devices }
  | .error reason => { runs := members.map Prod.snd, outcome := .failed, reason := reason }

/-- `itertools.product`. -/
def product {α : Type} : List (List α) → List (List α)
  | [] => [[]]
  | xs :: rest => xs.flatMap fun x => (product rest).map fun tuple => x :: tuple

def reasons (runs : List TargetRun) (outcome : Outcome) : String :=
  "; ".intercalate ((runs.filter fun r => r.outcome = outcome).map TargetRun.reason)

def combineRuns (participants : List Participant) (pools : Pools) (runs : List TargetRun) :
    Combination :=
  if runs.any fun r => r.outcome = .failed then
    { runs := runs, outcome := .failed, reason := reasons runs .failed }
  else if runs.any fun r => r.outcome = .notApplicable then
    { runs := runs, outcome := .notApplicable, reason := reasons runs .notApplicable }
  else assign lower repr (participants.zip runs) pools

def combine (participants : List Participant) (pools : Pools) : List Combination :=
  (product (participants.map Participant.runs)).map (combineRuns lower repr participants pools)

end Forming

end Bajutsu.Devices
