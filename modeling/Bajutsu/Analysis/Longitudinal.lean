import Bajutsu.Devices.DeviceOs
import Bajutsu.Evidence.ScreenMapRedaction
import Bajutsu.Lib.InputOrder
import Mathlib.Data.List.ReduceOption
import Mathlib.Data.Prod.Lex
import Mathlib.Data.String.Basic

/-!
# Flakiness in the accumulated runs

The scenarios of all runs are grouped by the fingerprint of their file, their name and the system they ran on. Each group
is a history, whose verdicts decide its class.
-/

namespace Bajutsu.Analysis

open PyValue InputOrder Devices.DeviceOs
open Evidence.EvidenceRedactor (truthy)

inductive Stability where
  | flaky
  | deterministic
  | unproven
  deriving DecidableEq

def classifyStability (passed runs : Nat) : Stability :=
  if runs < 2 then .unproven else if 0 < passed ∧ passed < runs then .flaky else .deterministic

namespace Longitudinal

abbrev Manifest : Type := List (String × Val)

structure HistoryKey where
  scenarioHash : String
  name : String
  os : Option DeviceOS

structure ScenarioHistory (F : Type) where
  scenarioHash : String
  name : String
  deviceOs : Option DeviceOS
  runs : Nat
  passed : Nat
  failed : Nat
  passRate : F
  classification : Stability

structure LongitudinalReport (F : Type) where
  histories : List (ScenarioHistory F)
  skipped : Nat

/-- What two entries of one history share: all of the key but the label of the system. -/
abbrev Identity : Type := String × String × Option (String × Nat × Nat)

def HistoryKey.identity (key : HistoryKey) : Identity := (key.scenarioHash, key.name, key.os.map DeviceOS.identity)

def ScenarioHistory.identity {F : Type} (h : ScenarioHistory F) : Identity :=
  (h.scenarioHash, h.name, h.deviceOs.map DeviceOS.identity)

def scenarioHashOf (manifest : Manifest) : Option String :=
  match get manifest "provenance" with
  | some (.dict prov) =>
    match get prov "scenarioHash" with
    | some (.str hash) => some hash
    | _ => none
  | _ => none

/-- A scenario of a manifest, if it has a name, with its verdict. -/
def entryOf (hash : String) : Val → Except DeviceOSError (Option (HistoryKey × Bool))
  | .dict s =>
    match get s "scenario" with
    | some (.str name) =>
      if name = "" then .ok none
      else do
        let os ← parseValue (get s "device_runtime")
        return some (⟨hash, name, os⟩, ((get s "ok").map truthy).getD false)
    | _ => .ok none
  | _ => .ok none

def entriesOf (manifest : Manifest) : Except DeviceOSError (List (HistoryKey × Bool)) :=
  match scenarioHashOf manifest, get manifest "scenarios" with
  | some hash, some (.list scenarios) => do return (← scenarios.mapM (entryOf hash)).reduceOption
  | _, _ => .ok []

/-- The key of the entry that opens a group. -/
def openedBy (group : List (HistoryKey × Bool)) : HistoryKey := (group.map Prod.fst).headD ⟨"", "", none⟩

section Report

-- `divide` is true division, on floats.
variable {F : Type} (divide : Nat → Nat → F)

def history (key : HistoryKey) (oks : List Bool) : Except DeviceOSError (ScenarioHistory F) := do
  let passed := oks.countP id
  let runs := oks.length
  return {
    scenarioHash := key.scenarioHash
    name := key.name
    deviceOs := ← canonicalOs key.os
    runs := runs
    passed := passed
    failed := runs - passed
    passRate := divide passed runs
    classification := classifyStability passed runs }

/-- Flaky ones first, then those of the most runs. -/
def sortKey (h : ScenarioHistory F) : Bool ×ₗ Natᵒᵈ ×ₗ String ×ₗ (Nat ×ₗ String ×ₗ Nat ×ₗ Nat) ×ₗ String :=
  toLex (decide (h.classification ≠ .flaky), toLex (OrderDual.toDual h.runs, toLex (h.scenarioHash,
    toLex (orderingKey h.deviceOs, h.name))))

def longitudinal (manifests : List Manifest) : Except DeviceOSError (LongitudinalReport F) := do
  let entries ← manifests.mapM entriesOf
  let groups := groupBy (fun entry => entry.1.identity) entries.flatten
  let histories ← groups.mapM fun group => history divide (openedBy group.2) (group.2.map Prod.snd)
  return {
    histories := sortBy sortKey histories
    skipped := manifests.countP fun m => (scenarioHashOf m).isNone }

variable {divide}

/-! ## One history -/

theorem history_identity {key : HistoryKey} {oks : List Bool} {h : ScenarioHistory F} (hOk : history divide key oks = .ok h) :
    h.identity = key.identity ∧ canonicalOs h.deviceOs = .ok h.deviceOs := by
  obtain ⟨os, hOs, hHistory⟩ := bind_eq_ok hOk
  cases hHistory
  obtain ⟨hIdentity, hCanonical⟩ := canonicalOs_identity hOs
  exact ⟨by rw [ScenarioHistory.identity, HistoryKey.identity, hIdentity], hCanonical⟩

theorem history_congr {key key' : HistoryKey} {oks oks' : List Bool} (hKey : key.identity = key'.identity)
    (hOks : oks.Perm oks') : history divide key oks = history divide key' oks' := by
  obtain ⟨hash, name, os⟩ := key
  obtain ⟨hash', name', os'⟩ := key'
  simp only [HistoryKey.identity, Prod.mk.injEq] at hKey
  obtain ⟨rfl, rfl, hOs⟩ := hKey
  simp only [history, canonicalOs_eq hOs, hOks.countP_eq, hOks.length_eq]

theorem openedBy_identity {i : Identity} {group : List (HistoryKey × Bool)} (hNe : group ≠ [])
    (h : ∀ entry ∈ group, entry.1.identity = i) : (openedBy group).identity = i := by
  cases group with
  | nil => exact absurd rfl hNe
  | cons entry rest => exact h entry List.mem_cons_self

theorem eq_of_sortKey {h h' : ScenarioHistory F} (hKey : sortKey h = sortKey h') : h.identity = h'.identity := by
  simp only [sortKey, toLex_inj, Prod.mk.injEq] at hKey
  obtain ⟨-, -, hHash, hOs, hName⟩ := hKey
  rw [ScenarioHistory.identity, ScenarioHistory.identity, hHash, hName, identity_of_orderingKey hOs]

/-! ## Any order of the manifests -/

theorem longitudinal_perm {manifests manifests' : List Manifest} (h : manifests.Perm manifests')
    {report : LongitudinalReport F} (hReport : longitudinal divide manifests = .ok report) :
    longitudinal divide manifests' = .ok report := by
  obtain ⟨entries, hEntries, hReport⟩ := bind_eq_ok hReport
  obtain ⟨histories, hHistories, hReport⟩ := bind_eq_ok hReport
  cases hReport
  obtain ⟨entries', hEntries', hPerm⟩ := mapM_perm h hEntries
  have hFlat : entries.flatten.Perm entries'.flatten := hPerm.symm.flatten
  have hGroup : ∀ {entries : List (HistoryKey × Bool)} {i : Identity}, i ∈ entries.map (fun entry => entry.1.identity) →
      (openedBy (entries.filter fun entry => entry.1.identity = i)).identity = i := by
    intro entries i hi
    apply openedBy_identity
    · obtain ⟨entry, hMem, hEntry⟩ := List.mem_map.mp hi
      exact List.ne_nil_of_mem (List.mem_filter.mpr ⟨hMem, decide_eq_true hEntry⟩)
    · intro entry hMem
      exact of_decide_eq_true (List.mem_filter.mp hMem).2
  have hScores : ∀ i ∈ entries.flatten.map (fun entry => entry.1.identity), ∀ u,
      history divide (openedBy (entries.flatten.filter fun entry => entry.1.identity = i))
        ((entries.flatten.filter fun entry => entry.1.identity = i).map Prod.snd) = .ok u →
      ∃ v, history divide (openedBy (entries'.flatten.filter fun entry => entry.1.identity = i))
        ((entries'.flatten.filter fun entry => entry.1.identity = i).map Prod.snd) = .ok v ∧ id v = id u := by
    intro i hi u hu
    refine ⟨u, ?_, rfl⟩
    rw [← hu]
    apply history_congr
    · rw [hGroup hi, hGroup ((hFlat.map _).mem_iff.mp hi)]
    · exact ((hFlat.filter _).map _).symm
  obtain ⟨histories', hHistories', hViews⟩ := groups_perm hFlat hScores hHistories
  have hNames : histories.map ScenarioHistory.identity =
      (groupBy (fun entry : HistoryKey × Bool => entry.1.identity) entries.flatten).map Prod.fst := by
    apply keys_of_groups _ hHistories
    intro i hi u hu
    rw [(history_identity hu).1, hGroup hi]
  have hSorted : (sortBy sortKey histories).map id = (sortBy sortKey histories').map id := by
    apply map_sortBy_eq (fun _ => rfl) hViews.symm
    intro u hu v hv hKey
    have hu : u ∈ histories := by simpa using hu
    have hv : v ∈ histories := by simpa using hv
    apply List.inj_on_of_nodup_map _ hu hv (eq_of_sortKey hKey)
    rw [hNames]
    exact (keys_groupBy _ _).1
  rw [List.map_id, List.map_id] at hSorted
  simp only [longitudinal, hEntries', hHistories', bind, Except.bind, pure, Except.pure, hSorted, h.countP_eq]

end Report

end Longitudinal

end Bajutsu.Analysis
