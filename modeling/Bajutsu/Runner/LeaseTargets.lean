import Bajutsu.Lib.Interleaving
import Bajutsu.Lib.LockOrder
import Mathlib.Data.List.Dedup
import Mathlib.Data.List.Pairwise
import Mathlib.Data.Prod.Lex
import Mathlib.Data.String.Basic

/-!
# Leasing every target of a scenario

A scenario's device groups are leased one after the other, each from the pool of its last starting member.
-/

namespace Bajutsu.Runner

open Interleaving LockOrder

/-- An entry of a scenario's `targets`: a bare name, or a device group. -/
inductive Target where
  | name (name : String)
  | group (names : List String)
  deriving DecidableEq

structure Scenario where
  targets : List Target
  installs : List String
  deriving DecidableEq

/-- Why a scenario's device groups or `installs` are refused, with what the refusal names. -/
inductive GroupProblem where
  | duplicateTarget (dupes : List String) (targets : List Target)
  | shortGroup (group : List String)
  | unknownInstalls (unknown names : List String)
  | duplicateInstall (dupes installs : List String)
  | noInstalledMember (group : List String)
  deriving DecidableEq

namespace Scenario

variable (s : Scenario)

def deviceGroups : List (List String) :=
  s.targets.map fun
    | .name n => [n]
    | .group names => names

def targetNames : List String := s.deviceGroups.flatten

/-- The members that start with an app: the primary, and what `installs` lists. -/
def starting : List String :=
  match s.targetNames with
  | [] => []
  | primary :: _ => primary :: s.installs

def laterTargets : List String :=
  (s.deviceGroups.filter fun group => 2 ≤ group.length).flatten.filter fun name => name ∉ s.starting

def repeated (names : List String) : List String :=
  (names.filter fun n => 1 < names.count n).dedup.insertionSort (· ≤ ·)

/-- A device group is written with two names or more. -/
def shortGroup : Target → Option (List String)
  | .name _ => none
  | .group names => if names.length < 2 then some names else none

def unknownInstalls : List String := s.installs.filter fun name => name ∉ s.targetNames

/-- A group of two or more without the primary lists a member in `installs`. -/
def uninstalledGroup : Option (List String) :=
  s.deviceGroups.tail.find? fun group => 2 ≤ group.length && !group.any fun name => s.installs.contains name

def checkDeviceGroups : Except GroupProblem Unit :=
  if repeated s.targetNames ≠ [] then
    .error (.duplicateTarget (repeated s.targetNames) s.targets)
  else match s.targets.findSome? shortGroup with
    | some group => .error (.shortGroup group)
    | none =>
      if s.unknownInstalls ≠ [] then
        .error (.unknownInstalls s.unknownInstalls s.targetNames)
      else if repeated s.installs ≠ [] then
        .error (.duplicateInstall (repeated s.installs) s.installs)
      else match s.uninstalledGroup with
        | some group => .error (.noInstalledMember group)
        | none => .ok ()

end Scenario

/-- A scenario that was loaded. -/
def LoadedScenario : Type := { s : Scenario // s.checkDeviceGroups = .ok () }

namespace Scenario

theorem repeated_eq_nil {names : List String} : repeated names = [] ↔ names.Nodup := by
  rw [repeated, List.nodup_iff_count_le_one]
  constructor
  · intro hNil name
    by_contra hTwice
    have hMem : name ∈ names.filter fun n => 1 < names.count n := by
      rw [List.mem_filter]
      constructor
      · exact List.count_pos_iff.mp (by omega)
      · simpa using hTwice
    rw [← List.mem_dedup, ← List.mem_insertionSort (· ≤ ·), hNil] at hMem
    cases hMem
  · intro hOnce
    have hNone : names.filter (fun n => 1 < names.count n) = [] := by
      rw [List.filter_eq_nil_iff]
      intro name _
      simpa using hOnce name
    rw [hNone]
    rfl

theorem checkDeviceGroups_ok {s : Scenario} (h : s.checkDeviceGroups = .ok ()) :
    s.targetNames.Nodup ∧ s.targets.findSome? shortGroup = none ∧ s.uninstalledGroup = none := by
  rw [checkDeviceGroups] at h
  split at h
  · cases h
  rename_i hNames
  split at h
  · cases h
  rename_i hShort
  split at h
  · cases h
  split at h
  · cases h
  split at h
  · cases h
  rename_i hInstalled
  exact ⟨repeated_eq_nil.mp (not_not.mp hNames), hShort, hInstalled⟩

theorem deviceGroups_ne_nil {s : Scenario} (h : s.checkDeviceGroups = .ok ()) {group : List String}
    (hMem : group ∈ s.deviceGroups) : group ≠ [] := by
  obtain ⟨-, hShort, -⟩ := checkDeviceGroups_ok h
  obtain ⟨target, hTarget, rfl⟩ := List.mem_map.mp hMem
  cases target with
  | name n => exact List.cons_ne_nil n []
  | group names =>
    rintro rfl
    exact nomatch (List.findSome?_eq_none_iff.mp hShort) _ hTarget

theorem groups_disjoint {s : Scenario} (h : s.targetNames.Nodup) {g g' : List String} (hMem : g ∈ s.deviceGroups)
    (hMem' : g' ∈ s.deviceGroups) {name : String} (hName : name ∈ g) (hName' : name ∈ g') : g = g' := by
  have : Std.Symm (@List.Disjoint String) := ⟨fun _ _ => List.Disjoint.symm⟩
  by_contra hDiffer
  exact (List.nodup_flatten.mp h).2.forall hMem hMem' hDiffer hName hName'

theorem mem_starting_of_installs {s : Scenario} {name : String} (hName : name ∈ s.targetNames)
    (hInstalls : name ∈ s.installs) : name ∈ s.starting := by
  obtain ⟨primary, names, hNames⟩ := List.exists_cons_of_ne_nil (List.ne_nil_of_mem hName)
  rw [starting, hNames]
  exact List.mem_cons_of_mem primary hInstalls

theorem not_mem_later {s : Scenario} {name : String} (h : name ∈ s.starting) : name ∉ s.laterTargets := by
  intro hLater
  have hOutside := (List.mem_filter.mp hLater).2
  simp only [decide_eq_true_eq] at hOutside
  exact hOutside h

theorem exists_starting {s : Scenario} (h : s.checkDeviceGroups = .ok ()) {group : List String}
    (hMem : group ∈ s.deviceGroups) : ∃ name ∈ group, name ∉ s.laterTargets := by
  obtain ⟨hNames, -, hInstalled⟩ := checkDeviceGroups_ok h
  obtain ⟨first, members, rfl⟩ := List.exists_cons_of_ne_nil (deviceGroups_ne_nil h hMem)
  by_cases hSize : 2 ≤ (first :: members).length
  · obtain ⟨head, tail, hGroups⟩ := List.exists_cons_of_ne_nil (List.ne_nil_of_mem hMem)
    rw [hGroups] at hMem
    obtain rfl | hTail := List.mem_cons.mp hMem
    · -- the group of the primary
      refine ⟨first, List.mem_cons_self, not_mem_later ?_⟩
      rw [starting, targetNames, hGroups]
      exact List.mem_cons_self
    · rw [uninstalledGroup, hGroups] at hInstalled
      have hListed := List.find?_eq_none.mp hInstalled _ hTail
      simp only [hSize, decide_true, Bool.true_and, Bool.not_eq_true, Bool.not_eq_false', List.any_eq_true,
        List.contains_iff_mem] at hListed
      obtain ⟨name, hName, hInstalls⟩ := hListed
      refine ⟨name, hName, not_mem_later (mem_starting_of_installs ?_ hInstalls)⟩
      exact List.mem_flatten.mpr ⟨_, hGroups ▸ hMem, hName⟩
  · -- a bare name is in no group of two
    refine ⟨first, List.mem_cons_self, fun hLater => hSize ?_⟩
    obtain ⟨other, hOther, hFirst⟩ := List.mem_flatten.mp (List.mem_filter.mp hLater).1
    obtain ⟨hOther, hTwo⟩ := List.mem_filter.mp hOther
    rw [groups_disjoint hNames hMem hOther List.mem_cons_self hFirst]
    exact of_decide_eq_true hTwo

end Scenario

/-- The members of a device group that start with an app, of which there is one. -/
def StartingGroup : Type := { group : List String // group ≠ [] }

namespace StartingGroup

variable (g : StartingGroup)

def first : String := g.val.head g.property

/-- The last starting member, which prepares the device. -/
def anchor : String := g.val.getLast g.property

/-- The others, in the order in which they join it. -/
def joining : List String := g.val.reverse.tail

theorem anchor_joining : g.anchor :: g.joining = g.val.reverse := by
  have hReverse : g.val.reverse ≠ [] := List.reverse_ne_nil_iff.mpr g.property
  rw [joining, anchor, ← List.head_reverse hReverse]
  exact List.cons_head_tail hReverse

end StartingGroup

namespace LoadedScenario

variable (s : LoadedScenario)

theorem starting_ne_nil {group : List String}
    (h : group ∈ s.val.deviceGroups.map fun group => group.filter fun n => n ∉ s.val.laterTargets) : group ≠ [] := by
  obtain ⟨declared, hMem, rfl⟩ := List.mem_map.mp h
  obtain ⟨name, hName, hStarts⟩ := Scenario.exists_starting s.property hMem
  exact List.ne_nil_of_mem (List.mem_filter.mpr ⟨hName, by simpa using hStarts⟩)

def groups : List StartingGroup :=
  (s.val.deviceGroups.map fun group => group.filter fun n => n ∉ s.val.laterTargets).attachWith (· ≠ [])
    fun _ h => s.starting_ne_nil h

end LoadedScenario

/-! ## The leases of one scenario -/

/-- What a declared target is leased from. -/
structure TargetPool (π : Type) where
  lease : π
  actuator : String

variable {π : Type}

/-- What the groups are sorted by. -/
def groupKey (targets : String → TargetPool π) (g : StartingGroup) : String ×ₗ String :=
  toLex ((targets g.first).actuator, g.first)

def leaseOrder (targets : String → TargetPool π) (s : LoadedScenario) : List StartingGroup :=
  s.groups.insertionSort fun g h => groupKey targets g ≤ groupKey targets h

/-- The pool a group's device comes from. -/
def poolOf (targets : String → TargetPool π) (g : StartingGroup) : π := (targets g.anchor).lease

/-- The pools that a scenario's leases come from, in the order in which they are taken. -/
def leasePools (targets : String → TargetPool π) (s : LoadedScenario) : List π :=
  (leaseOrder targets s).map (poolOf targets)

/-- The names that come into `held`, in that order. -/
def leaseNames (targets : String → TargetPool π) (s : LoadedScenario) : List String :=
  (leaseOrder targets s).flatMap fun g => g.val.reverse

/-- What a call raised: an `Exception` or another `BaseException`; its device may have come back all the same. -/
structure Fault where
  isException : Bool
  deviceBack : Bool

/-- A lease that a call holds; the one that has the device gives it back to its pool. -/
structure Lease (π : Type) where
  name : String
  pool : Option π

inductive LeaseStatement (π : Type) where
  | get (pool : π)
  | launch (name : String) (pool : π)
  | join (name : String)
  | release (lease : Lease π)
  | handBack (leases : List (Lease π))

inductive LeaseReply where
  | blocked
  | done
  | raised (fault : Fault)

variable [DecidableEq π]

/-- The device goes back to its pool. -/
def putBack (free : π → Nat) (pool : π) : π → Nat := Function.update free pool (free pool + 1)

def giveBack (free : π → Nat) (lease : Lease π) : π → Nat :=
  match lease.pool with
  | none => free
  | some pool => putBack free pool

/-- The free devices of every pool after a statement. -/
def execLease : LeaseStatement π → Option Fault → (π → Nat) → (π → Nat) × LeaseReply
  | .get pool, none, free =>
    if free pool = 0 then (free, .blocked) else (Function.update free pool (free pool - 1), .done)
  | .get _, some fault, free => (free, .raised fault)
  | .launch .., none, free => (free, .done)
  | .launch _ pool, some fault, free => (if fault.deviceBack then putBack free pool else free, .raised fault)
  | .join _, none, free => (free, .done)
  | .join _, some fault, free => (free, .raised fault)
  | .release lease, none, free => (giveBack free lease, .done)
  | .release lease, some fault, free => (if fault.deviceBack then giveBack free lease else free, .raised fault)
  | .handBack leases, _, free => (leases.foldl giveBack free, .done)

/-- Where a call of `_lease_targets` stands. Once it has returned its leases, the scenario runs on them. -/
inductive LeasePlace (π : Type) where
  | taking (held : List (Lease π)) (group : StartingGroup) (rest : List StartingGroup)
  | launching (held : List (Lease π)) (group : StartingGroup) (rest : List StartingGroup)
  | joining (held : List (Lease π)) (name : String) (names : List String) (rest : List StartingGroup)
  | returned (held : List (Lease π))
  | closed
  | releasing (lease : Lease π) (leases : List (Lease π))
  | raised
  | cutOff (leases : List (Lease π))

namespace LeasePlace

def nextGroup (held : List (Lease π)) : List StartingGroup → LeasePlace π
  | [] => .returned held
  | group :: rest => .taking held group rest

def nextMember (held : List (Lease π)) (rest : List StartingGroup) : List String → LeasePlace π
  | [] => nextGroup held rest
  | name :: names => .joining held name names rest

def releaseAll : List (Lease π) → LeasePlace π
  | [] => .raised
  | lease :: leases => .releasing lease leases

end LeasePlace

open LeasePlace

def nextLease (targets : String → TargetPool π) :
    LeasePlace π → Option ((_ : LeaseStatement π) × (LeaseReply → LeasePlace π))
  | .taking held group rest =>
    some ⟨.get (poolOf targets group), fun
      | .blocked => .taking held group rest
      | .done => .launching held group rest
      | .raised _ => releaseAll held.reverse⟩
  | .launching held group rest =>
    some ⟨.launch group.anchor (poolOf targets group), fun
      | .raised _ => releaseAll held.reverse
      | _ => nextMember (held ++ [⟨group.anchor, some (poolOf targets group)⟩]) rest group.joining⟩
  | .joining held name names rest =>
    some ⟨.join name, fun
      | .raised _ => releaseAll held.reverse
      | _ => nextMember (held ++ [⟨name, none⟩]) rest names⟩
  | .returned held => some ⟨.handBack held, fun _ => .closed⟩
  | .closed => none
  | .releasing lease leases =>
    some ⟨.release lease, fun
      | .raised fault => if fault.isException then releaseAll leases else .cutOff leases
      | _ => releaseAll leases⟩
  | .raised => none
  | .cutOff _ => none

/-- Any number of calls, for any of these scenarios. -/
def leaseTargets (targets : String → TargetPool π) (scenarios : Set LoadedScenario) :
    Machine (π → Nat) (LeaseStatement π) (fun _ => LeaseReply) (Option Fault) { s // s ∈ scenarios } (LeasePlace π) where
  exec := execLease
  start s := nextGroup [] (leaseOrder targets s.val)
  next := nextLease targets

end Bajutsu.Runner
