import Bajutsu.Runner.LeaseTargetsOrder
import Mathlib.Data.List.Perm.Basic

/-!
# Leases without a circular wait

The calls of `_lease_targets` cannot wait for each other in a circle exactly when no chain of pools, each
leased before the next by some scenario, leads back to its start.
-/

namespace Bajutsu.Runner

open Interleaving LockOrder LeasePlace

variable {π : Type} {targets : String → TargetPool π} {s : LoadedScenario}

/-! ## What is given back -/

/-- Every lease that was made is released once, the members of a group before its anchor. -/
structure ReleasedInOrder (s : LoadedScenario) (events : List (LeaseEvent π)) : Prop where
  all : events.filterMap releasedLease = (events.filterMap madeLease).reverse
  once : ((events.filterMap releasedLease).map Lease.name).Nodup
  members : ∀ g ∈ s.groups, ∀ name ∈ g.joining, name ∈ (events.filterMap releasedLease).map Lease.name →
    [name, g.anchor].Sublist ((events.filterMap releasedLease).map Lease.name)

theorem leaseNames_eq : (allLeases targets s).map Lease.name = leaseNames targets s := by
  rw [allLeases, leaseNames, List.map_flatMap]
  exact congrArg (List.flatMap · (leaseOrder targets s)) (funext names_leasesOf)

theorem leaseNames_nodup : (leaseNames targets s).Nodup := by
  have hPerm : (leaseNames targets s).Perm ((leaseOrder targets s).flatMap Subtype.val) :=
    List.Perm.flatMap_left _ fun g _ => List.reverse_perm g.val
  exact hPerm.nodup_iff.mpr order_nodup

theorem pair_of_prefix {α : Type} {xs ys : List α} {x y : α} (hNodup : ys.Nodup) (hPrefix : xs <+: ys)
    (hPair : [x, y].Sublist ys) (hMem : y ∈ xs) : [x, y].Sublist xs := by
  obtain ⟨later, rfl⟩ := hPrefix
  obtain ⟨before, after, hSplit, hBefore, hAfter⟩ := List.sublist_append_iff.mp hPair
  have hNotLater : y ∉ later := (List.disjoint_of_nodup_append hNodup) hMem
  obtain rfl | ⟨last, hLast⟩ : after = [] ∨ ∃ z, after.getLast? = some z := by
    cases h : after.getLast? with
    | none => exact .inl (List.getLast?_eq_none_iff.mp h)
    | some z => exact .inr ⟨z, rfl⟩
  · rw [List.append_nil] at hSplit
    exact hSplit ▸ hBefore
  · have hEnd := congrArg List.getLast? hSplit
    rw [List.getLast?_append, hLast] at hEnd
    obtain rfl : y = last := Option.some.inj hEnd
    exact absurd (hAfter.subset (List.mem_of_getLast? hLast)) hNotLater

theorem anchor_before {g : StartingGroup} (hGroup : g ∈ s.groups) {name : String} (hName : name ∈ g.joining) :
    [g.anchor, name].Sublist (leaseNames targets s) := by
  have hPair : [g.anchor, name].Sublist (g.anchor :: g.joining) :=
    (List.singleton_sublist.mpr hName).cons_cons g.anchor
  rw [g.anchor_joining] at hPair
  exact hPair.trans (List.sublist_flatten_of_mem (List.mem_map.mpr ⟨g, leaseOrder_perm.mem_iff.mpr hGroup, rfl⟩))

theorem Unwinding.inOrder {events : List (LeaseEvent π)} (h : Unwinding targets s events []) :
    ReleasedInOrder s events := by
  have hAll : events.filterMap releasedLease = (events.filterMap madeLease).reverse := by
    rw [h.made, List.append_nil, List.reverse_reverse]
  have hMade : (events.filterMap madeLease).map Lease.name <+: leaseNames targets s :=
    leaseNames_eq ▸ h.plan.map Lease.name
  have hNames : (events.filterMap releasedLease).map Lease.name =
      ((events.filterMap madeLease).map Lease.name).reverse := by
    rw [hAll, List.map_reverse]
  constructor
  · exact hAll
  · rw [hNames, List.nodup_reverse]
    exact leaseNames_nodup.sublist hMade.sublist
  · intro g hGroup name hName hReleased
    rw [hNames] at hReleased ⊢
    have hPair := pair_of_prefix leaseNames_nodup hMade (anchor_before hGroup hName) (List.mem_reverse.mp hReleased)
    exact hPair.reverse

/-! ## The pools of one backend -/

/-- Where every pool serves one backend and every backend has one pool, the members of a group share theirs,
and no scenario leases two groups from one pool, the order of the backends is the order of the pools. -/
theorem acyclic_of_one_pool {targets : String → TargetPool π} {scenarios : Set LoadedScenario}
    (hPool : ∀ a b, (targets a).lease = (targets b).lease ↔ (targets a).actuator = (targets b).actuator)
    (hGroup : ∀ s ∈ scenarios, ∀ g ∈ s.groups, (targets g.first).actuator = (targets g.anchor).actuator)
    (hApart : ∀ s ∈ scenarios, ∀ g ∈ s.groups, ∀ h ∈ s.groups, poolOf targets g = poolOf targets h → g = h) :
    Acyclic (TakenBefore targets scenarios) := by
  have hStep : ∀ p q, TakenBefore targets scenarios p q → ∀ b, (targets b).lease = q →
      ∃ a, (targets a).lease = p ∧ (targets a).actuator < (targets b).actuator := by
    rintro p q ⟨s, hScenario, g, hg, h, hh, hKey, rfl, rfl⟩ b hb
    refine ⟨g.anchor, rfl, ?_⟩
    rw [(hPool b h.anchor).mp hb, ← hGroup s hScenario g hg, ← hGroup s hScenario h hh]
    obtain hLess | ⟨hSame, hName⟩ := Prod.Lex.toLex_lt_toLex.mp hKey
    · exact hLess
    · have hPools : poolOf targets g = poolOf targets h := by
        apply (hPool _ _).mpr
        rw [← hGroup s hScenario g hg, ← hGroup s hScenario h hh]
        exact hSame
      rw [hApart s hScenario g hg h hh hPools] at hKey
      exact absurd hKey (lt_irrefl _)
  have hUp : ∀ p q, Relation.TransGen (TakenBefore targets scenarios) p q → ∀ b, (targets b).lease = q →
      ∃ a, (targets a).lease = p ∧ (targets a).actuator < (targets b).actuator := by
    intro p q hPath
    induction hPath with
    | single hFirst => exact hStep _ _ hFirst
    | tail _ hLast ih =>
      intro b hb
      obtain ⟨mid, hMid, hLess⟩ := hStep _ _ hLast b hb
      obtain ⟨a, ha, hFirst⟩ := ih mid hMid
      exact ⟨a, ha, hFirst.trans hLess⟩
  intro p hCycle
  obtain ⟨-, -, -, -, -, -, h, -, -, -, hLast⟩ := Relation.TransGen.tail'_iff.mp hCycle
  obtain ⟨a, ha, hLess⟩ := hUp p p hCycle h.anchor hLast
  exact hLess.ne ((hPool a h.anchor).mp (ha.trans hLast.symm))

/-! ## Runs -/

theorem ledger_taken {events : List (LeaseEvent π)} {place : LeasePlace π} (h : LeaseLedger targets s events place) :
    events.filterMap takenPool <+: leasePools targets s := by
  cases place with
  | taking held g rest => exact Going.taken_prefix h
  | launching held g rest => exact Going.taken_prefix h
  | joining held name names rest => exact Going.taken_prefix h
  | returned held => exact Going.taken_prefix h
  | closed => exact h.2
  | releasing lease leases => exact Unwinding.taken h
  | raised => exact Unwinding.taken h
  | cutOff leases => exact Unwinding.taken h.1

theorem ledger_released {events : List (LeaseEvent π)} {place : LeasePlace π} (h : LeaseLedger targets s events place)
    (hDone : nextLease targets place = none) (hRaised : events.any acquisitionRaised = true)
    (hWhole : events.any releaseCutOff = false) : ReleasedInOrder s events := by
  cases place with
  | closed => exact nomatch h.1.symm.trans hRaised
  | raised => exact Unwinding.inOrder h
  | cutOff leases => exact nomatch hWhole.symm.trans h.2
  | _ => cases hDone

variable [DecidableEq π] {scenarios : Set LoadedScenario} {sizes : π → Nat}

/-- The devices that a call has taken and not given back, by their pools. -/
def inHand (targets : String → TargetPool π) : LeasePlace π → List π
  | .taking held _ _ => pools held
  | .launching held g _ => pools held ++ [poolOf targets g]
  | .joining held _ _ _ => pools held
  | .returned held => pools held
  | .closed => []
  | .releasing lease leases => pools (lease :: leases)
  | .raised => []
  | .cutOff leases => pools leases

/-- The pool that a call takes a device of next. -/
def nextPool (targets : String → TargetPool π) : LeasePlace π → Option π
  | .taking _ g _ => some (poolOf targets g)
  | _ => none

def Holds (targets : String → TargetPool π) (st : LeaseConfig π scenarios) (n : Nat) (p : π) : Prop :=
  ∃ s place, st.threads[n]? = some (s, place) ∧ p ∈ inHand targets place

def Awaits (targets : String → TargetPool π) (st : LeaseConfig π scenarios) (n : Nat) (p : π) : Prop :=
  ∃ s place, st.threads[n]? = some (s, place) ∧ nextPool targets place = some p

/-- One order of the pools in which every scenario's are taken upwards, which every call follows; no calls
that wait in a circle; and after a failed acquisition every lease given back, unless a release was cut off. -/
structure LeasesSafely (targets : String → TargetPool π) (sizes : π → Nat) (scenarios : Set LoadedScenario) : Prop where
  ordered : Ordered (leasePlans targets scenarios)
  follows : ∀ st, (leaseTargets targets scenarios).Reaches (.init sizes) st → ∀ (n : Nat) (s : { s // s ∈ scenarios })
    (place : LeasePlace π), st.threads[n]? = some (s, place) →
      (Machine.eventsOf n st.history).filterMap takenPool <+: leasePools targets s.val
  noCircularWait : ∀ st, (leaseTargets targets scenarios).Reaches (.init sizes) st →
    ¬CircularWait (Holds targets st) (Awaits targets st)
  released : ∀ st, (leaseTargets targets scenarios).Reaches (.init sizes) st → ∀ (n : Nat) (s : { s // s ∈ scenarios })
    (place : LeasePlace π), st.threads[n]? = some (s, place) → nextLease targets place = none →
      (Machine.eventsOf n st.history).any acquisitionRaised = true →
      (Machine.eventsOf n st.history).any releaseCutOff = false →
        ReleasedInOrder s.val (Machine.eventsOf n st.history)

theorem holds_before {st : LeaseConfig π scenarios} (h : (leaseTargets targets scenarios).Reaches (.init sizes) st)
    (n : Nat) (p q : π) (hHolds : Holds targets st n p) (hNext : Awaits targets st n q) :
    Before (leasePlans targets scenarios) p q := by
  obtain ⟨s, place, hThread, hp⟩ := hHolds
  obtain ⟨s', place', hThread', hq⟩ := hNext
  obtain ⟨rfl, rfl⟩ := Prod.mk.inj (Option.some.inj (hThread.symm.trans hThread'))
  cases place with
  | taking held g rest =>
    obtain rfl : poolOf targets g = q := Option.some.inj hq
    have hGoing : Going targets s.val _ held ((g :: rest).flatMap (leasesOf targets)) [] := ledger_reached h hThread
    refine ⟨leasePools targets s.val, ⟨s.val, s.property, rfl⟩, ?_⟩
    rw [← pools_allLeases, ← hGoing.plan, pools_append, pools_flatMap, List.map_cons]
    have hFirst : [p].Sublist (pools held) := List.singleton_sublist.mpr hp
    exact hFirst.append ((List.nil_sublist _).cons_cons (poolOf targets g))
  | _ => cases hq

/-- The calls lease safely exactly when no chain of pools, each leased before the next, leads back. -/
theorem leaseTargets_safe_iff (targets : String → TargetPool π) (sizes : π → Nat) (scenarios : Set LoadedScenario) :
    LeasesSafely targets sizes scenarios ↔ Acyclic (TakenBefore targets scenarios) := by
  rw [takenBefore_eq]
  constructor
  · intro hSafe
    exact hSafe.ordered.acyclic
  · intro hAcyclic
    constructor
    · exact hAcyclic.ordered
    · intro st hReach n s place hThread
      exact ledger_taken (ledger_reached hReach hThread)
    · intro st hReach
      exact not_circularWait hAcyclic (holds_before hReach)
    · intro st hReach n s place hThread hDone hRaised hWhole
      exact ledger_released (ledger_reached hReach hThread) hDone hRaised hWhole

/-! ## Two scenarios that list a group in another order -/

/-- Three targets of one backend: two on one pool, and one on the other. -/
def twoPools (name : String) : TargetPool Bool := ⟨name = "mail", "adb"⟩

def adminFirst : LoadedScenario := ⟨⟨[.group ["admin", "web"], .name "mail"], ["web"]⟩, by decide⟩

def webFirst : LoadedScenario := ⟨⟨[.group ["web", "admin"], .name "mail"], ["admin"]⟩, by decide⟩

abbrev deadlockRuns : Set LoadedScenario := {adminFirst, webFirst}

/-- Each call leases its first group. -/
def deadlockLabels : List (Label (Option Fault) { s // s ∈ deadlockRuns }) :=
  [.call ⟨adminFirst, .inl rfl⟩, .call ⟨webFirst, .inr rfl⟩, .run 0 none, .run 0 none, .run 0 none,
    .run 1 none, .run 1 none]

def deadlocked : LeaseConfig Bool deadlockRuns :=
  (leaseTargets twoPools deadlockRuns).after (.init fun _ => 1) deadlockLabels

theorem deadlocked_stands {n : Nat} {hand : List Bool} {next : Option Bool}
    (h : (deadlocked.threads[n]?.map fun call => (inHand twoPools call.2, nextPool twoPools call.2)) =
      some (hand, next)) {p q : Bool} (hHand : p ∈ hand) (hNext : next = some q) :
    Holds twoPools deadlocked n p ∧ Awaits twoPools deadlocked n q := by
  obtain ⟨⟨s, place⟩, hThread, hStands⟩ := Option.map_eq_some_iff.mp h
  obtain ⟨rfl, rfl⟩ := Prod.mk.inj hStands
  exact ⟨⟨s, place, hThread, hHand⟩, s, place, hThread, hNext⟩

theorem leaseTargets_deadlock :
    ¬∀ (targets : String → TargetPool Bool) (sizes : Bool → Nat) (scenarios : Set LoadedScenario),
      (∀ pool, 1 ≤ sizes pool) → LeasesSafely targets sizes scenarios := by
  intro hSafe
  have hReach : (leaseTargets twoPools deadlockRuns).Reaches (.init fun _ => 1) deadlocked :=
    .after (by decide)
  obtain ⟨hFirst, hFirstNext⟩ := @deadlocked_stands 0 [false] (some true) (by decide) false true (by decide) rfl
  obtain ⟨hSecond, hSecondNext⟩ := @deadlocked_stands 1 [true] (some false) (by decide) true false (by decide) rfl
  apply (hSafe twoPools (fun _ => 1) deadlockRuns fun _ => le_rfl).noCircularWait deadlocked hReach
  exact ⟨0, .tail (.single ⟨true, hFirstNext, hSecond⟩) ⟨false, hSecondNext, hFirst⟩⟩

end Bajutsu.Runner
