import Bajutsu.Analysis.Longitudinal

/-!
# Ranking by flakiness

The recorded runs are grouped by the fingerprint of their scenario, the system, the target and the coordinates they ran
with. Each group is a history, scored on its newest runs. What a history's row says does not depend on the order of the
records, but for runs of one timestamp: these keep the order in which they were read.
-/

namespace Bajutsu.Analysis.Flakiness

open PyValue InputOrder Devices.DeviceOs
open Evidence.EvidenceRedactor (truthy)

/-- A time on a clock, in microseconds, and its distance from UTC. -/
structure DateTime where
  wall : Int
  offset : Option Int

/-- Without a distance a time is taken as UTC. -/
def DateTime.asUtc (dt : DateTime) : Int := dt.wall - dt.offset.getD 0

structure RunRecord where
  id : String
  scenarioHash : Option String
  ok : Option Bool
  createdAt : Option DateTime
  deviceRuntime : Option String
  target : Option String
  runCoordinates : Option String
  summary : List (String × Val)

structure HistoryKey where
  scenarioHash : String
  os : Option DeviceOS
  target : Option String
  coordinates : String

structure FlakyScenario (F : Type) where
  scenarioHash : String
  name : String
  deviceOs : Option DeviceOS
  runs : Nat
  passed : Nat
  failed : Nat
  flipRate : F
  classification : Stability
  representativePassRunId : Option String
  representativeFailRunId : Option String
  target : Option String
  coordinates : String

structure FlakinessReport (F : Type) where
  scenarios : List (FlakyScenario F)
  skipped : Nat

inductive FlakinessError where
  /-- `window_runs` is not positive. -/
  | window (runs : Int)
  | os (e : DeviceOSError)

/-- What the records of one history share: all of the key but the label of the system. -/
abbrev Identity : Type := String × Option (String × Nat × Nat) × Option String × String

def HistoryKey.identity (key : HistoryKey) : Identity :=
  (key.scenarioHash, key.os.map DeviceOS.identity, key.target, key.coordinates)

def FlakyScenario.identity {F : Type} (s : FlakyScenario F) : Identity :=
  (s.scenarioHash, s.deviceOs.map DeviceOS.identity, s.target, s.coordinates)

/-! ## A record -/

/-- Created before the instant, or at no known time. -/
def outsideWindow (since : Option DateTime) (r : RunRecord) : Bool :=
  match since with
  | none => false
  | some since =>
    match r.createdAt with
    | none => true
    | some createdAt => createdAt.asUtc < since.asUtc

/-- Without a fingerprint or a verdict a record is skipped. -/
def countable (r : RunRecord) : Bool := r.scenarioHash.isSome && r.ok.isSome

def keyOf (r : RunRecord) : Except DeviceOSError HistoryKey := do
  let os ← parseValue (r.deviceRuntime.map Val.str)
  return ⟨r.scenarioHash.getD "", os, r.target, r.runCoordinates.getD ""⟩

def passedRun (r : RunRecord) : Bool := r.ok = some true

/-- No timestamp goes before every timestamp. -/
def recencyKey (r : RunRecord) : Bool ×ₗ Int :=
  toLex (r.createdAt.isSome, (r.createdAt.map DateTime.asUtc).getD 0)

def newestFirst (r : RunRecord) : (Bool ×ₗ Int)ᵒᵈ := OrderDual.toDual (recencyKey r)

section Report

variable {F : Type} [LinearOrder F]

-- `str` is `str()`; `divide` is true division and `zero` the rate of no runs, on floats.
variable (str : Val → String) (divide : Nat → Nat → F) (zero : F)

def scenarioName (r : RunRecord) : String :=
  match get r.summary "scenarios" with
  | some (.list (name :: _)) => if truthy name then str name else ""
  | _ => ""

/-- `sorted(…, reverse=True)` keeps the order of records that tie. -/
def windowed (windowRuns : Option Nat) (runs : List RunRecord) : List RunRecord :=
  let ordered := sortBy newestFirst runs
  match windowRuns with
  | none => ordered
  | some n => ordered.take n

def representatives (runs : List RunRecord) : Option String × Option String :=
  ((runs.find? passedRun).map RunRecord.id, (runs.find? fun r => !passedRun r).map RunRecord.id)

/-- The first name in the order of the runs. -/
def shownName (runs : List RunRecord) : String :=
  ((runs.find? fun r => scenarioName str r ≠ "").map (scenarioName str)).getD ""

def score (key : HistoryKey) (runs : List RunRecord) : Except DeviceOSError (FlakyScenario F) := do
  let passed := runs.countP passedRun
  let total := runs.length
  let failed := total - passed
  return {
    scenarioHash := key.scenarioHash
    name := shownName str runs
    deviceOs := ← canonicalOs key.os
    runs := total
    passed := passed
    failed := failed
    flipRate := if total = 0 then zero else divide (2 * min passed failed) total
    classification := classifyStability passed total
    representativePassRunId := (representatives runs).1
    representativeFailRunId := (representatives runs).2
    target := key.target
    coordinates := key.coordinates }

/-- Flaky ones first, then those that flip most, then those of the most runs. -/
def sortKey (s : FlakyScenario F) :
    Bool ×ₗ Fᵒᵈ ×ₗ Natᵒᵈ ×ₗ String ×ₗ (Nat ×ₗ String ×ₗ Nat ×ₗ Nat) ×ₗ String ×ₗ String :=
  toLex (decide (s.classification ≠ .flaky), toLex (OrderDual.toDual s.flipRate, toLex (OrderDual.toDual s.runs,
    toLex (s.scenarioHash, toLex (orderingKey s.deviceOs, toLex (s.target.getD "", s.coordinates))))))

/-- The key of the record that opens a group. -/
def openedBy (group : List (HistoryKey × RunRecord)) : HistoryKey := (group.map Prod.fst).headD ⟨"", none, none, ""⟩

/-- The report, where the window is positive. -/
def rank (records : List RunRecord) (windowRuns : Option Nat) (since : Option DateTime) :
    Except DeviceOSError (FlakinessReport F) := do
  let inside := records.filter fun r => !outsideWindow since r
  let keyed ← (inside.filter countable).mapM fun r => do return (← keyOf r, r)
  let groups := groupBy (fun item => item.1.identity) keyed
  let scenarios ← groups.mapM fun group =>
    score str divide zero (openedBy group.2) (windowed windowRuns (group.2.map Prod.snd))
  return {
    scenarios := sortBy sortKey scenarios
    skipped := inside.countP fun r => !countable r }

def rankFlakiness (records : List RunRecord) (windowRuns : Option Int) (since : Option DateTime) :
    Except FlakinessError (FlakinessReport F) :=
  match windowRuns with
  | some runs =>
    if runs ≤ 0 then .error (.window runs) else (rank str divide zero records (some runs.toNat) since).mapError .os
  | none => (rank str divide zero records none since).mapError .os

end Report

/-! ## Where a record is counted -/

inductive Place where
  /-- Before `since`, or without a timestamp. -/
  | outside
  | skipped
  | counted (history : Identity) (passed : Bool)
  | unreadable
  deriving DecidableEq

def placeOf (since : Option DateTime) (r : RunRecord) : Place :=
  if outsideWindow since r then .outside
  else if !countable r then .skipped
  else
    match keyOf r with
    | .ok key => .counted key.identity (passedRun r)
    | .error _ => .unreadable

def historyIdOf (since : Option DateTime) (r : RunRecord) : Option Identity :=
  match placeOf since r with
  | .counted i _ => some i
  | _ => none

/-- The records of a history. -/
def historyOf (since : Option DateTime) (records : List RunRecord) (i : Identity) : List RunRecord :=
  records.filter fun r => historyIdOf since r = some i

theorem historyIdOf_of_counted {since : Option DateTime} {r : RunRecord} {key : HistoryKey}
    (hInside : outsideWindow since r = false) (hCountable : countable r = true) (hKey : keyOf r = .ok key) :
    historyIdOf since r = some key.identity := by
  simp [historyIdOf, placeOf, hInside, hCountable, hKey]

section Keyed

variable {records : List RunRecord} {since : Option DateTime} {keyed : List (HistoryKey × RunRecord)}

/-- The records that are counted, with their keys. -/
def Keyed (records : List RunRecord) (since : Option DateTime) (keyed : List (HistoryKey × RunRecord)) : Prop :=
  ((records.filter fun r => !outsideWindow since r).filter countable).mapM
    (fun r => (do return (← keyOf r, r) : Except DeviceOSError (HistoryKey × RunRecord))) = .ok keyed

theorem Keyed.records_eq (h : Keyed records since keyed) :
    keyed.map Prod.snd = (records.filter fun r => !outsideWindow since r).filter countable ∧
      ∀ item ∈ keyed, keyOf item.2 = .ok item.1 := by
  have hAll := Raising.mapM_eq_ok_iff.mp h
  clear h
  generalize (records.filter fun r => !outsideWindow since r).filter countable = counted at hAll
  induction hAll with
  | nil => exact ⟨rfl, fun item hItem => nomatch hItem⟩
  | cons hHead _ ih =>
    obtain ⟨key, hKey, hItem⟩ := bind_eq_ok hHead
    cases hItem
    exact ⟨by rw [List.map_cons, ih.1], List.forall_mem_cons.mpr ⟨hKey, ih.2⟩⟩

theorem Keyed.group_eq (h : Keyed records since keyed) (i : Identity) :
    (keyed.filter fun item => item.1.identity = i).map Prod.snd = historyOf since records i := by
  obtain ⟨hRecords, hKeys⟩ := h.records_eq
  have hInside : ∀ item ∈ keyed, outsideWindow since item.2 = false ∧ countable item.2 = true := by
    intro item hItem
    have hMem : item.2 ∈ keyed.map Prod.snd := List.mem_map_of_mem hItem
    rw [hRecords] at hMem
    obtain ⟨hMem, hCountable⟩ := List.mem_filter.mp hMem
    exact ⟨Bool.not_eq_true' _ ▸ (List.mem_filter.mp hMem).2, hCountable⟩
  have hFilter : (keyed.filter fun item => item.1.identity = i) =
      keyed.filter ((fun r => decide (historyIdOf since r = some i)) ∘ Prod.snd) := by
    apply List.filter_congr
    intro item hItem
    obtain ⟨hOut, hCountable⟩ := hInside item hItem
    simp only [Function.comp_apply, historyIdOf_of_counted hOut hCountable (hKeys item hItem), Option.some.injEq]
  rw [hFilter, ← List.filter_map, hRecords, List.filter_filter, List.filter_filter, historyOf]
  apply List.filter_congr
  intro r _
  rw [Bool.eq_iff_iff, Bool.and_eq_true, Bool.and_eq_true, decide_eq_true_eq]
  constructor
  · exact fun hr => hr.1.1
  · intro hr
    suffices countable r = true ∧ (!outsideWindow since r) = true from ⟨⟨hr, this.1⟩, this.2⟩
    rw [historyIdOf, placeOf] at hr
    cases hOut : outsideWindow since r with
    | true => simp [hOut] at hr
    | false =>
      cases hCountable : countable r with
      | true => exact ⟨rfl, rfl⟩
      | false => simp [hOut, hCountable] at hr

theorem Keyed.mem_keys_iff (h : Keyed records since keyed) (i : Identity) :
    i ∈ keyed.map (fun item => item.1.identity) ↔ ∃ r ∈ records, historyIdOf since r = some i := by
  have hGroup := h.group_eq i
  constructor
  · intro hi
    obtain ⟨item, hItem, hIdentity⟩ := List.mem_map.mp hi
    have hMem : item.2 ∈ historyOf since records i := by
      rw [← hGroup]
      exact List.mem_map_of_mem (List.mem_filter.mpr ⟨hItem, decide_eq_true hIdentity⟩)
    obtain ⟨hMem, hHistory⟩ := List.mem_filter.mp hMem
    exact ⟨item.2, hMem, of_decide_eq_true hHistory⟩
  · rintro ⟨r, hr, hHistory⟩
    have hMem : r ∈ historyOf since records i := List.mem_filter.mpr ⟨hr, decide_eq_true hHistory⟩
    rw [← hGroup] at hMem
    obtain ⟨item, hItem, -⟩ := List.mem_map.mp hMem
    obtain ⟨hItem, hIdentity⟩ := List.mem_filter.mp hItem
    exact List.mem_map.mpr ⟨item, hItem, of_decide_eq_true hIdentity⟩

theorem openedBy_identity {i : Identity} (hi : i ∈ keyed.map (fun item => item.1.identity)) :
    (openedBy (keyed.filter fun item => item.1.identity = i)).identity = i := by
  have hAll : ∀ item ∈ keyed.filter (fun item => item.1.identity = i), item.1.identity = i :=
    fun item hItem => of_decide_eq_true (List.mem_filter.mp hItem).2
  obtain ⟨item, hMem, hItem⟩ := List.mem_map.mp hi
  have hNe : (keyed.filter fun item => item.1.identity = i) ≠ [] :=
    List.ne_nil_of_mem (List.mem_filter.mpr ⟨hMem, decide_eq_true hItem⟩)
  generalize (keyed.filter fun item => item.1.identity = i) = group at hAll hNe
  cases group with
  | nil => exact absurd rfl hNe
  | cons item rest => exact hAll item List.mem_cons_self

end Keyed

/-! ## A row in every order of its records -/

section Row

variable {F : Type} {str : Val → String} {divide : Nat → Nat → F} {zero : F}

/-- What records of one timestamp have to agree in. Those among which the window ends agree in their verdict and in whether
they name a scenario; the newest of each verdict are one run, and the newest that name a scenario name one. -/
structure SettledHistory (str : Val → String) (runs : List RunRecord) (n : Nat) : Prop where
  verdict : CutAgrees newestFirst passedRun runs n
  named : CutAgrees newestFirst (fun r => scenarioName str r ≠ "") runs n
  pass : FirstAgrees newestFirst passedRun RunRecord.id runs n
  fail : FirstAgrees newestFirst (fun r => !passedRun r) RunRecord.id runs n
  name : FirstAgrees newestFirst (fun r => scenarioName str r ≠ "") (scenarioName str) runs n

theorem windowed_eq (windowRuns : Option Nat) (runs : List RunRecord) :
    windowed windowRuns runs = (sortBy newestFirst runs).take (windowRuns.getD runs.length) := by
  cases windowRuns with
  | none => rw [windowed, Option.getD_none, ← (perm_sortBy newestFirst runs).length_eq, List.take_length]
  | some n => rfl

theorem score_fields {key : HistoryKey} {runs : List RunRecord} {s : FlakyScenario F}
    (h : score str divide zero key runs = .ok s) :
    s.identity = key.identity ∧ s.passed = runs.countP passedRun ∧ s.failed = runs.length - runs.countP passedRun := by
  obtain ⟨os, hOs, hScore⟩ := bind_eq_ok h
  cases hScore
  exact ⟨by rw [FlakyScenario.identity, HistoryKey.identity, (canonicalOs_identity hOs).1], rfl, rfl⟩

/-- A row's tally needs no more than the number of its runs and of those that passed. -/
theorem score_again {key key' : HistoryKey} {runs runs' : List RunRecord} {s : FlakyScenario F}
    (hKey : key.identity = key'.identity) (hLength : runs.length = runs'.length)
    (hPassed : runs.countP passedRun = runs'.countP passedRun) (h : score str divide zero key runs = .ok s) :
    score str divide zero key' runs' = .ok { s with
      name := shownName str runs'
      representativePassRunId := (representatives runs').1
      representativeFailRunId := (representatives runs').2 } := by
  obtain ⟨os, hOs, hScore⟩ := bind_eq_ok h
  cases hScore
  obtain ⟨hash, keyOs, target, coordinates⟩ := key
  obtain ⟨hash', keyOs', target', coordinates'⟩ := key'
  simp only [HistoryKey.identity, Prod.mk.injEq] at hKey
  obtain ⟨rfl, hSame, rfl, rfl⟩ := hKey
  rw [canonicalOs_eq hSame] at hOs
  simp only [score, hOs, bind, Except.bind, pure, Except.pure, hLength, hPassed]

variable {key key' : HistoryKey} {runs runs' : List RunRecord} {windowRuns : Option Nat} {s : FlakyScenario F}

theorem score_windowed (hKey : key.identity = key'.identity) (hPerm : runs.Perm runs')
    (hCut : CutAgrees newestFirst passedRun runs (windowRuns.getD runs.length))
    (h : score str divide zero key (windowed windowRuns runs) = .ok s) :
    score str divide zero key' (windowed windowRuns runs') = .ok { s with
      name := shownName str (windowed windowRuns runs')
      representativePassRunId := (representatives (windowed windowRuns runs')).1
      representativeFailRunId := (representatives (windowed windowRuns runs')).2 } := by
  have hSorted := perm_sortBy newestFirst runs
  have hSorted' := (perm_sortBy newestFirst runs').trans hPerm.symm
  apply score_again hKey _ _ h
  · rw [windowed_eq, windowed_eq, List.length_take, List.length_take, hSorted.length_eq, hSorted'.length_eq,
      hPerm.length_eq]
  · rw [windowed_eq, windowed_eq, ← hPerm.length_eq]
    exact countP_take_eq hSorted hSorted' (pairwise_sortBy _ _) (pairwise_sortBy _ _) hCut

theorem score_settled (hKey : key.identity = key'.identity) (hPerm : runs.Perm runs')
    (hSettled : SettledHistory str runs (windowRuns.getD runs.length))
    (h : score str divide zero key (windowed windowRuns runs) = .ok s) :
    score str divide zero key' (windowed windowRuns runs') = .ok s := by
  have hSorted := perm_sortBy newestFirst runs
  have hSorted' := (perm_sortBy newestFirst runs').trans hPerm.symm
  have hFind : ∀ {β : Type} {p : RunRecord → Bool} {f : RunRecord → β},
      CutAgrees newestFirst p runs (windowRuns.getD runs.length) →
      FirstAgrees newestFirst p f runs (windowRuns.getD runs.length) →
      ((windowed windowRuns runs').find? p).map f = ((windowed windowRuns runs).find? p).map f := by
    intro β p f hCut hFirst
    rw [windowed_eq, windowed_eq, ← hPerm.length_eq]
    exact find_take_eq hSorted' hSorted (pairwise_sortBy _ _) (pairwise_sortBy _ _) hCut hFirst
  rw [score_windowed hKey hPerm hSettled.verdict h, shownName, representatives, hFind hSettled.named hSettled.name,
    hFind hSettled.verdict hSettled.pass, hFind hSettled.verdict.not hSettled.fail]
  obtain ⟨os, hOs, hScore⟩ := bind_eq_ok h
  cases hScore
  rfl

theorem windowed_split (windowRuns : Option Nat) (runs : List RunRecord) :
    ∃ left, (windowed windowRuns runs ++ left).Perm runs ∧
      (windowed windowRuns runs).length = (windowRuns.map (min · runs.length)).getD runs.length ∧
      ∀ r ∈ windowed windowRuns runs, ∀ r' ∈ left, recencyKey r' ≤ recencyKey r := by
  refine ⟨(sortBy newestFirst runs).drop (windowRuns.getD runs.length), ?_, ?_, ?_⟩
  · rw [windowed_eq, List.take_append_drop]
    exact perm_sortBy newestFirst runs
  · rw [windowed_eq, List.length_take, (perm_sortBy newestFirst runs).length_eq]
    cases windowRuns with
    | none => exact Nat.min_self _
    | some n => rfl
  · intro r hr r' hr'
    have hSorted := pairwise_sortBy newestFirst runs
    rw [← List.take_append_drop (windowRuns.getD runs.length) (sortBy newestFirst runs), List.pairwise_append] at hSorted
    rw [windowed_eq] at hr
    exact hSorted.2.2 r hr r' hr'

end Row

/-! ## The report in every order of the records -/

section Ranking

variable {F : Type} [LinearOrder F] {str : Val → String} {divide : Nat → Nat → F} {zero : F}
variable {records records' : List RunRecord} {windowRuns : Option Nat} {since : Option DateTime}
variable {report : FlakinessReport F}

/-- Every history is settled. -/
def Settled (str : Val → String) (records : List RunRecord) (windowRuns : Option Nat) (since : Option DateTime) : Prop :=
  ∀ i, SettledHistory str (historyOf since records i) (windowRuns.getD (historyOf since records i).length)

/-- In every history the runs among which the window ends have one verdict. -/
def VerdictsSettled (records : List RunRecord) (windowRuns : Option Nat) (since : Option DateTime) : Prop :=
  ∀ i, CutAgrees newestFirst passedRun (historyOf since records i) (windowRuns.getD (historyOf since records i).length)

/-- No two histories differ only in that one has no target and the other an empty one. -/
def TargetsTold (records : List RunRecord) (since : Option DateTime) : Prop :=
  ∀ r ∈ records, ∀ r' ∈ records, ∀ hash os target target' coordinates,
    historyIdOf since r = some (hash, os, target, coordinates) →
    historyIdOf since r' = some (hash, os, target', coordinates) → target.getD "" = target'.getD "" → target = target'

/-- A row without the name and the runs that stand for it. -/
def tally (s : FlakyScenario F) : FlakyScenario F :=
  { s with name := "", representativePassRunId := none, representativeFailRunId := none }

theorem rank_cases (h : rank str divide zero records windowRuns since = .ok report) :
    ∃ keyed scenarios, Keyed records since keyed ∧
      (groupBy (fun item : HistoryKey × RunRecord => item.1.identity) keyed).mapM (fun group =>
        score str divide zero (openedBy group.2) (windowed windowRuns (group.2.map Prod.snd))) = .ok scenarios ∧
      report = { scenarios := sortBy sortKey scenarios
                 skipped := (records.filter fun r => !outsideWindow since r).countP fun r => !countable r } := by
  obtain ⟨keyed, hKeyed, hReport⟩ := bind_eq_ok h
  obtain ⟨scenarios, hScenarios, hReport⟩ := bind_eq_ok hReport
  cases hReport
  exact ⟨keyed, scenarios, hKeyed, hScenarios, rfl⟩

omit [LinearOrder F] in
theorem rows_identity {keyed : List (HistoryKey × RunRecord)} {scenarios : List (FlakyScenario F)}
    (h : (groupBy (fun item : HistoryKey × RunRecord => item.1.identity) keyed).mapM (fun group =>
        score str divide zero (openedBy group.2) (windowed windowRuns (group.2.map Prod.snd))) = .ok scenarios) :
    scenarios.map FlakyScenario.identity =
      (groupBy (fun item : HistoryKey × RunRecord => item.1.identity) keyed).map Prod.fst := by
  apply keys_of_groups _ h
  intro i hi s hs
  rw [(score_fields hs).1, openedBy_identity hi]

omit [LinearOrder F] in
theorem identity_of_sortKey {s s' : FlakyScenario F} (h : sortKey s = sortKey s') :
    s.scenarioHash = s'.scenarioHash ∧ s.deviceOs.map DeviceOS.identity = s'.deviceOs.map DeviceOS.identity ∧
      s.target.getD "" = s'.target.getD "" ∧ s.coordinates = s'.coordinates := by
  simp only [sortKey, toLex_inj, Prod.mk.injEq] at h
  obtain ⟨-, -, -, hHash, hOs, hTarget, hCoordinates⟩ := h
  exact ⟨hHash, identity_of_orderingKey hOs, hTarget, hCoordinates⟩

/-- Rows that are the same up to a view in every order of their records stand in the same order up to it. -/
theorem rank_views {view : FlakyScenario F → FlakyScenario F} (hKey : ∀ s, sortKey s = sortKey (view s))
    (hPerm : records.Perm records') (hTold : TargetsTold records since)
    (hScores : ∀ i key key', key.identity = key'.identity → ∀ s,
      score str divide zero key (windowed windowRuns (historyOf since records i)) = .ok s →
      ∃ s', score str divide zero key' (windowed windowRuns (historyOf since records' i)) = .ok s' ∧ view s' = view s)
    (h : rank str divide zero records windowRuns since = .ok report) :
    ∃ report', rank str divide zero records' windowRuns since = .ok report' ∧ report'.skipped = report.skipped ∧
      report'.scenarios.map view = report.scenarios.map view := by
  obtain ⟨keyed, scenarios, hKeyed, hScenarios, rfl⟩ := rank_cases h
  obtain ⟨keyed', hKeyed', hSame⟩ := mapM_perm ((hPerm.filter _).filter _) hKeyed
  have hSame := hSame.symm
  have hRows : ∀ i ∈ keyed.map (fun item => item.1.identity), ∀ s,
      score str divide zero (openedBy (keyed.filter fun item => item.1.identity = i))
        (windowed windowRuns ((keyed.filter fun item => item.1.identity = i).map Prod.snd)) = .ok s →
      ∃ s', score str divide zero (openedBy (keyed'.filter fun item => item.1.identity = i))
        (windowed windowRuns ((keyed'.filter fun item => item.1.identity = i).map Prod.snd)) = .ok s' ∧ view s' = view s := by
    intro i hi s hs
    rw [Keyed.group_eq hKeyed] at hs
    rw [Keyed.group_eq (show Keyed records' since keyed' from hKeyed')]
    exact hScores i _ _ (by rw [openedBy_identity hi, openedBy_identity ((hSame.map _).mem_iff.mp hi)]) s hs
  obtain ⟨scenarios', hScenarios', hViews⟩ := groups_perm hSame hRows hScenarios
  refine ⟨_, by rw [rank, hKeyed']; simp only [bind, Except.bind, hScenarios']; rfl, ?_, ?_⟩
  · exact ((hPerm.filter _).countP_eq _).symm
  · apply (map_sortBy_eq hKey hViews.symm _).symm
    intro u hu v hv hSort
    obtain ⟨s, hs, rfl⟩ := List.mem_map.mp hu
    obtain ⟨s', hs', rfl⟩ := List.mem_map.mp hv
    rw [← hKey, ← hKey] at hSort
    have hIds := rows_identity hScenarios
    have hIn : ∀ {s}, s ∈ scenarios → ∃ r ∈ records, historyIdOf since r = some s.identity := by
      intro s hs
      rw [← Keyed.mem_keys_iff hKeyed, ← (keys_groupBy _ _).2, ← hIds]
      exact List.mem_map_of_mem hs
    have hNodup : (scenarios.map FlakyScenario.identity).Nodup := by
      rw [hIds]
      exact (keys_groupBy _ _).1
    obtain ⟨hHash, hOs, hTarget, hCoordinates⟩ := identity_of_sortKey hSort
    obtain ⟨r, hr, hId⟩ := hIn hs
    obtain ⟨r', hr', hId'⟩ := hIn hs'
    rw [FlakyScenario.identity, ← hHash, ← hOs, ← hCoordinates] at hId'
    have hSameTarget := hTold r hr r' hr' _ _ _ _ _ hId hId' hTarget
    have hEq : s.identity = s'.identity := by
      rw [FlakyScenario.identity, FlakyScenario.identity, hHash, hOs, hCoordinates, hSameTarget]
    rw [List.inj_on_of_nodup_map hNodup hs hs' hEq]

theorem rank_settled (hPerm : records.Perm records') (hTold : TargetsTold records since)
    (hSettled : Settled str records windowRuns since)
    (h : rank str divide zero records windowRuns since = .ok report) :
    rank str divide zero records' windowRuns since = .ok report := by
  have hScores : ∀ i key key', key.identity = key'.identity → ∀ s,
      score str divide zero key (windowed windowRuns (historyOf since records i)) = .ok s →
      ∃ s', score str divide zero key' (windowed windowRuns (historyOf since records' i)) = .ok s' ∧ id s' = id s :=
    fun i key key' hKey s hs => ⟨s, score_settled hKey (hPerm.filter _) (hSettled i) hs, rfl⟩
  obtain ⟨⟨scenarios', skipped'⟩, hRank, hSkipped, hScenarios⟩ := rank_views (fun _ => rfl) hPerm hTold hScores h
  simp only [List.map_id'] at hSkipped hScenarios
  rw [hRank, hSkipped, hScenarios]

theorem rank_tallies (hPerm : records.Perm records') (hTold : TargetsTold records since)
    (hSettled : VerdictsSettled records windowRuns since)
    (h : rank str divide zero records windowRuns since = .ok report) :
    ∃ report', rank str divide zero records' windowRuns since = .ok report' ∧ report'.skipped = report.skipped ∧
      report'.scenarios.map tally = report.scenarios.map tally := by
  have hView : ∀ s : FlakyScenario F, sortKey s = sortKey (tally s) := fun _ => rfl
  apply rank_views hView hPerm hTold _ h
  intro i key key' hKey s hs
  exact ⟨_, score_windowed hKey (hPerm.filter _) (hSettled i) hs, rfl⟩

/-! ## Every record in one place -/

theorem placeOf_skipped_iff {r : RunRecord} :
    placeOf since r = .skipped ↔ outsideWindow since r = false ∧ countable r = false := by
  rw [placeOf]
  cases outsideWindow since r with
  | true => simp
  | false =>
    cases countable r with
    | false => simp
    | true => cases keyOf r <;> simp

theorem placeOf_counted_iff {r : RunRecord} {i : Identity} {passed : Bool} :
    placeOf since r = .counted i passed ↔ historyIdOf since r = some i ∧ passedRun r = passed := by
  rw [historyIdOf, placeOf]
  cases outsideWindow since r with
  | true => simp
  | false =>
    cases countable r with
    | false => simp
    | true => cases keyOf r <;> simp

theorem placeOf_unreadable_iff {r : RunRecord} :
    placeOf since r = .unreadable ↔ outsideWindow since r = false ∧ countable r = true ∧ ∃ e, keyOf r = .error e := by
  rw [placeOf]
  cases outsideWindow since r with
  | true => simp
  | false =>
    cases countable r with
    | false => simp
    | true => cases keyOf r <;> simp

/-- The records a history's row counts are its newest ones, all of them without a window. -/
def CountsNewest (windowRuns : Option Nat) (runs : List RunRecord) (s : FlakyScenario F) : Prop :=
  ∃ kept left : List RunRecord, (kept ++ left).Perm runs ∧
    kept.length = (windowRuns.map (min · runs.length)).getD runs.length ∧
    (∀ r ∈ kept, ∀ r' ∈ left, recencyKey r' ≤ recencyKey r) ∧
    s.passed = kept.countP passedRun ∧ s.failed = kept.countP fun r => !passedRun r

/-- The place of a record decides where the report counts it. -/
structure Counted (records : List RunRecord) (windowRuns : Option Nat) (since : Option DateTime)
    (report : FlakinessReport F) : Prop where
  readable : ∀ r ∈ records, placeOf since r ≠ .unreadable
  skipped : report.skipped = records.countP fun r => placeOf since r = .skipped
  distinct : (report.scenarios.map FlakyScenario.identity).Nodup
  histories : ∀ i, i ∈ report.scenarios.map FlakyScenario.identity ↔
    ∃ r ∈ records, ∃ passed, placeOf since r = .counted i passed
  newest : ∀ s ∈ report.scenarios, CountsNewest windowRuns (historyOf since records s.identity) s
  whole : windowRuns = none → ∀ s ∈ report.scenarios,
    s.passed = records.countP (fun r => placeOf since r = .counted s.identity true) ∧
      s.failed = records.countP fun r => placeOf since r = .counted s.identity false

theorem countP_not {p : RunRecord → Bool} (runs : List RunRecord) :
    runs.length - runs.countP p = runs.countP fun r => !p r := by
  have hSplit := List.length_eq_countP_add_countP p (l := runs)
  simp only [decide_not, Bool.decide_eq_true] at hSplit
  omega

theorem countP_historyOf {p : RunRecord → Bool} {passed : Bool} (hp : ∀ r, p r = true ↔ passedRun r = passed)
    (records : List RunRecord) (i : Identity) :
    (historyOf since records i).countP p = records.countP fun r => placeOf since r = .counted i passed := by
  rw [historyOf, List.countP_filter]
  apply List.countP_congr
  intro r _
  rw [Bool.and_eq_true, hp, decide_eq_true_eq, decide_eq_true_eq, placeOf_counted_iff, and_comm]

theorem rank_counted (h : rank str divide zero records windowRuns since = .ok report) :
    Counted records windowRuns since report := by
  obtain ⟨keyed, scenarios, hKeyed, hScenarios, rfl⟩ := rank_cases h
  have hIds := rows_identity hScenarios
  have hSort := (perm_sortBy sortKey scenarios).map FlakyScenario.identity
  have hRow : ∀ s ∈ scenarios, ∃ key : HistoryKey,
      score str divide zero key (windowed windowRuns (historyOf since records s.identity)) = .ok s := by
    intro s hs
    obtain ⟨⟨i, group⟩, hGroup, hScore⟩ := exists_of_mapM_ok hScenarios s hs
    obtain ⟨hi, rfl⟩ := (mem_groupBy_iff _ _ _ _).mp hGroup
    have hIdentity := (score_fields hScore).1
    rw [openedBy_identity hi] at hIdentity
    rw [Keyed.group_eq hKeyed] at hScore
    exact ⟨_, hIdentity ▸ hScore⟩
  have hNewest : ∀ s ∈ scenarios, CountsNewest windowRuns (historyOf since records s.identity) s := by
    intro s hs
    obtain ⟨key, hScore⟩ := hRow s hs
    obtain ⟨left, hPerm, hLength, hNewest⟩ := windowed_split windowRuns (historyOf since records s.identity)
    obtain ⟨-, hPassed, hFailed⟩ := score_fields hScore
    exact ⟨_, left, hPerm, hLength, hNewest, hPassed, hFailed.trans (countP_not _)⟩
  refine ⟨?_, ?_, ?_, ?_, ?_, ?_⟩
  · intro r hr hPlace
    obtain ⟨hInside, hCountable, e, hError⟩ := placeOf_unreadable_iff.mp hPlace
    have hMem : r ∈ keyed.map Prod.snd := by
      rw [(Keyed.records_eq hKeyed).1]
      exact List.mem_filter.mpr ⟨List.mem_filter.mpr ⟨hr, by rw [hInside]; rfl⟩, hCountable⟩
    obtain ⟨item, hItem, rfl⟩ := List.mem_map.mp hMem
    rw [(Keyed.records_eq hKeyed).2 item hItem] at hError
    cases hError
  · rw [List.countP_filter]
    apply List.countP_congr
    intro r _
    rw [decide_eq_true_eq, placeOf_skipped_iff, Bool.and_eq_true, Bool.not_eq_true', Bool.not_eq_true', and_comm]
  · rw [hSort.nodup_iff, hIds]
    exact (keys_groupBy _ _).1
  · intro i
    rw [hSort.mem_iff, hIds, (keys_groupBy _ _).2, Keyed.mem_keys_iff hKeyed]
    constructor
    · rintro ⟨r, hr, hId⟩
      exact ⟨r, hr, passedRun r, placeOf_counted_iff.mpr ⟨hId, rfl⟩⟩
    · rintro ⟨r, hr, passed, hPlace⟩
      exact ⟨r, hr, (placeOf_counted_iff.mp hPlace).1⟩
  · intro s hs
    exact hNewest s ((perm_sortBy sortKey scenarios).mem_iff.mp hs)
  · rintro rfl s hs
    obtain ⟨kept, left, hPerm, hLength, -, hPassed, hFailed⟩ := hNewest s ((perm_sortBy sortKey scenarios).mem_iff.mp hs)
    have hNil : left = [] := by
      have hTotal := hPerm.length_eq
      rw [List.length_append, hLength, Option.map_none, Option.getD_none] at hTotal
      exact List.length_eq_zero_iff.mp (by omega)
    rw [hNil, List.append_nil] at hPerm
    rw [hPassed, hFailed, hPerm.countP_eq, hPerm.countP_eq]
    exact ⟨countP_historyOf (fun _ => Iff.rfl) records _, countP_historyOf (fun r => by rw [Bool.not_eq_true']) records _⟩

/-! ## Flakiness and the audit -/

structure Mined (str : Val → String) (divide : Nat → Nat → F) (zero : F) : Prop where
  report : ∀ records records' windowRuns since report, records.Perm records' → TargetsTold records since →
    Settled str records (windowRuns.map Int.toNat) since →
    rankFlakiness str divide zero records windowRuns since = .ok report →
    rankFlakiness str divide zero records' windowRuns since = .ok report
  /-- Without a window the tallies and their order are the same whatever ties. -/
  tallies : ∀ records records' windowRuns since report, records.Perm records' → TargetsTold records since →
    (windowRuns ≠ none → VerdictsSettled records (windowRuns.map Int.toNat) since) →
    rankFlakiness str divide zero records windowRuns since = .ok report →
    ∃ report', rankFlakiness str divide zero records' windowRuns since = .ok report' ∧
      report'.skipped = report.skipped ∧ report'.scenarios.map tally = report.scenarios.map tally
  counted : ∀ records windowRuns since report, rankFlakiness str divide zero records windowRuns since = .ok report →
    Counted records (windowRuns.map Int.toNat) since report
  audit : ∀ manifests manifests' report, manifests.Perm manifests' →
    Longitudinal.longitudinal divide manifests = .ok report → Longitudinal.longitudinal divide manifests' = .ok report

theorem rankFlakiness_ok_iff {records : List RunRecord} {windowRuns : Option Int} :
    rankFlakiness str divide zero records windowRuns since = .ok report ↔
      (∀ runs, windowRuns = some runs → 0 < runs) ∧
        rank str divide zero records (windowRuns.map Int.toNat) since = .ok report := by
  have hMap : ∀ {x : Except DeviceOSError (FlakinessReport F)}, x.mapError FlakinessError.os = .ok report ↔ x = .ok report := by
    intro x
    cases x <;> simp [Except.mapError]
  cases windowRuns with
  | none => simp [rankFlakiness, hMap]
  | some runs =>
    rw [rankFlakiness]
    split
    · rename_i hNot
      simp only [reduceCtorEq, Option.some.injEq, forall_eq', false_iff, not_and]
      intro hPos
      omega
    · rename_i hPos
      rw [hMap, Option.map_some]
      simp only [Option.some.injEq, forall_eq']
      exact ⟨fun h => ⟨by omega, h⟩, fun h => h.2⟩

theorem verdictsSettled_none (records : List RunRecord) (since : Option DateTime) : VerdictsSettled records none since := by
  intro i x _ y _ _ _ hCut
  have hLe := List.countP_le_length (p := fun y => decide (newestFirst y ≤ newestFirst x)) (l := historyOf since records i)
  rw [Option.getD_none, Cut, upTo] at hCut
  omega

theorem mining_order_free (str : Val → String) (divide : Nat → Nat → F) (zero : F) : Mined str divide zero where
  report := by
    intro records records' windowRuns since report hPerm hTold hSettled h
    rw [rankFlakiness_ok_iff] at h ⊢
    exact ⟨h.1, rank_settled hPerm hTold hSettled h.2⟩
  tallies := by
    intro records records' windowRuns since report hPerm hTold hVerdicts h
    rw [rankFlakiness_ok_iff] at h
    have hVerdicts : VerdictsSettled records (windowRuns.map Int.toNat) since := by
      cases windowRuns with
      | none => exact verdictsSettled_none records since
      | some runs => exact hVerdicts (Option.some_ne_none runs)
    obtain ⟨report', hRank, hSame⟩ := rank_tallies hPerm hTold hVerdicts h.2
    exact ⟨report', rankFlakiness_ok_iff.mpr ⟨h.1, hRank⟩, hSame⟩
  counted := by
    intro records windowRuns since report h
    exact rank_counted (rankFlakiness_ok_iff.mp h).2
  audit := by
    intro manifests manifests' report hPerm h
    exact Longitudinal.longitudinal_perm hPerm h

end Ranking

/-! ## Two runs of one second -/

def recordAt (id : String) (createdAt : Option DateTime) : RunRecord :=
  { id := id, scenarioHash := some "hash", ok := some true, createdAt := createdAt, deviceRuntime := none,
    target := none, runCoordinates := none, summary := [] }

def noon : DateTime := ⟨43200000000, some 0⟩

def flip (passed runs : Nat) : Rat := passed / runs

def secondRow (id : String) : FlakyScenario Rat :=
  { scenarioHash := "hash", name := "", deviceOs := none, runs := 2, passed := 2, failed := 0, flipRate := flip 0 2,
    classification := .deterministic, representativePassRunId := some id, representativeFailRunId := none,
    target := none, coordinates := "" }

theorem rank_noon (x y : String) :
    rankFlakiness (fun _ => "") flip 0 [recordAt x (some noon), recordAt y (some noon)] none none =
      .ok ⟨[secondRow x], 0⟩ := by
  have hOrder : windowed none [recordAt x (some noon), recordAt y (some noon)] =
      [recordAt x (some noon), recordAt y (some noon)] := by
    apply sortBy_of_pairwise
    simp [newestFirst, recencyKey, recordAt]
  have hRow : rankFlakiness (fun _ => "") flip 0 [recordAt x (some noon), recordAt y (some noon)] none none =
      ((score (fun _ => "") flip 0 ⟨"hash", none, none, ""⟩
        (windowed none [recordAt x (some noon), recordAt y (some noon)])).map fun s => ⟨sortBy sortKey [s], 0⟩).mapError
          FlakinessError.os := rfl
  rw [hRow, hOrder]
  have hScore : score (fun _ => "") flip 0 ⟨"hash", none, none, ""⟩ [recordAt x (some noon), recordAt y (some noon)] =
      .ok (secondRow x) := rfl
  rw [hScore, Except.map, sortBy_of_pairwise (List.pairwise_singleton _ _)]
  rfl

def olderThan (since : DateTime) (r : RunRecord) : Bool :=
  match r.createdAt with
  | none => false
  | some createdAt => createdAt.asUtc < since.asUtc

/-- Of two passing runs of one second the report links to the one that was read first; and a run without a timestamp is
dropped with the older ones. -/
theorem ties_in_input_order :
    ¬ (∀ (records records' : List RunRecord), records.Perm records' → ∀ report,
        rankFlakiness (fun _ => "") flip 0 records none none = .ok report →
        rankFlakiness (fun _ => "") flip 0 records' none none = .ok report) ∧
    ¬ (∀ (records : List RunRecord) (since : DateTime) report,
        rankFlakiness (fun _ => "") flip 0 records none (some since) = .ok report →
        records.length = (report.scenarios.map fun s => s.passed + s.failed).sum + report.skipped +
          records.countP (olderThan since)) := by
  constructor
  · intro hAll
    have hSwap := hAll _ _ (List.Perm.swap _ _ _) _ (rank_noon "a" "b")
    rw [rank_noon] at hSwap
    have hRows : [secondRow "b"] = [secondRow "a"] := congrArg FlakinessReport.scenarios (Except.ok.inj hSwap)
    simp [secondRow] at hRows
  · intro hAll
    have hEmpty : rankFlakiness (fun _ => "") flip 0 [recordAt "a" none] none (some noon) =
        .ok ⟨sortBy sortKey [], 0⟩ := rfl
    have hCount := hAll [recordAt "a" none] noon _ hEmpty
    rw [sortBy_of_pairwise List.Pairwise.nil] at hCount
    exact absurd hCount (by decide)

end Bajutsu.Analysis.Flakiness
