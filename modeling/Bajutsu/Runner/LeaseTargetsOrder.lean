import Bajutsu.Runner.LeaseTargets

/-!
# Leases and their order

When the calls of `_lease_targets` take their pools in one order, and what each gives back after a failure.
-/

namespace Bajutsu.Runner

open Interleaving LockOrder LeasePlace

variable {π : Type} {targets : String → TargetPool π} {s : LoadedScenario}

/-! ## The groups in their order -/

theorem groups_val :
    s.groups.map Subtype.val = s.val.deviceGroups.map fun group => group.filter fun n => n ∉ s.val.laterTargets :=
  List.attachWith_map_subtype_val ..

theorem groups_flatten :
    (s.groups.map Subtype.val).flatten = s.val.targetNames.filter fun n => n ∉ s.val.laterTargets := by
  rw [groups_val, Scenario.targetNames, List.filter_flatten]

theorem leaseOrder_perm : (leaseOrder targets s).Perm s.groups := List.perm_insertionSort ..

theorem order_nodup : ((leaseOrder targets s).map Subtype.val).flatten.Nodup := by
  obtain ⟨hNames, -, -⟩ := Scenario.checkDeviceGroups_ok s.property
  have hGroups : (s.groups.map Subtype.val).flatten.Nodup := groups_flatten ▸ hNames.filter _
  exact ((leaseOrder_perm.map Subtype.val).flatten).nodup_iff.mpr hGroups

theorem order_disjoint : (leaseOrder targets s).Pairwise fun g h => g.val.Disjoint h.val :=
  List.pairwise_map.mp (List.nodup_flatten.mp order_nodup).2

theorem first_mem (g : StartingGroup) : g.first ∈ g.val := List.head_mem g.property

theorem order_sorted : (leaseOrder targets s).Pairwise fun g h => groupKey targets g < groupKey targets h := by
  have hSorted : (leaseOrder targets s).Pairwise fun g h => groupKey targets g ≤ groupKey targets h :=
    List.pairwise_insertionSort (fun g h => groupKey targets g ≤ groupKey targets h) _
  refine hSorted.imp₂ (fun g h hLe hDisjoint => lt_of_le_of_ne hLe fun hKey => ?_) order_disjoint
  have hFirst : g.first = h.first := congrArg (fun key => (ofLex key).2) hKey
  exact hDisjoint (first_mem g) (hFirst ▸ first_mem h)

/-- Some scenario leases a group of the first pool before one of the second. -/
def TakenBefore (targets : String → TargetPool π) (scenarios : Set LoadedScenario) (p q : π) : Prop :=
  ∃ s ∈ scenarios, ∃ g ∈ s.groups, ∃ h ∈ s.groups,
    groupKey targets g < groupKey targets h ∧ poolOf targets g = p ∧ poolOf targets h = q

def leasePlans (targets : String → TargetPool π) (scenarios : Set LoadedScenario) : Set (List π) :=
  leasePools targets '' scenarios

theorem before_iff {scenarios : Set LoadedScenario} {p q : π} :
    Before (leasePlans targets scenarios) p q ↔ TakenBefore targets scenarios p q := by
  constructor
  · rintro ⟨-, ⟨s, hScenario, rfl⟩, hSub⟩
    obtain ⟨gs, hGroups, hPools⟩ := List.sublist_map_iff.mp hSub
    obtain ⟨g, later, rfl, rfl, hLater⟩ := List.map_eq_cons_iff.mp hPools.symm
    obtain ⟨h, others, rfl, rfl, hOthers⟩ := List.map_eq_cons_iff.mp hLater
    obtain rfl := List.map_eq_nil_iff.mp hOthers
    have hKey := List.pairwise_iff_forall_sublist.mp order_sorted hGroups
    refine ⟨s, hScenario, g, ?_, h, ?_, hKey, rfl, rfl⟩
    · exact leaseOrder_perm.mem_iff.mp (hGroups.subset List.mem_cons_self)
    · exact leaseOrder_perm.mem_iff.mp (hGroups.subset (List.mem_cons_of_mem g List.mem_cons_self))
  · rintro ⟨s, hScenario, g, hg, h, hh, hKey, rfl, rfl⟩
    refine ⟨leasePools targets s, ⟨s, hScenario, rfl⟩, ?_⟩
    have hPair : [g, h].Sublist (leaseOrder targets s) := by
      refine pair_sublist order_sorted (leaseOrder_perm.mem_iff.mpr hg) (leaseOrder_perm.mem_iff.mpr hh) ?_ ?_
      · rintro rfl
        exact lt_irrefl _ hKey
      · exact not_lt_of_gt hKey
    exact hPair.map (poolOf targets)

theorem takenBefore_eq (scenarios : Set LoadedScenario) :
    TakenBefore targets scenarios = Before (leasePlans targets scenarios) := by
  funext p q
  exact propext before_iff.symm

/-! ## What one call has done -/

/-- The leases of a group, the anchor's first. -/
def leasesOf (targets : String → TargetPool π) (g : StartingGroup) : List (Lease π) :=
  ⟨g.anchor, some (poolOf targets g)⟩ :: g.joining.map fun name => ⟨name, none⟩

/-- The leases of a scenario in the order in which they are made. -/
def allLeases (targets : String → TargetPool π) (s : LoadedScenario) : List (Lease π) :=
  (leaseOrder targets s).flatMap (leasesOf targets)

abbrev LeaseEvent (π : Type) := Event (LeaseStatement π) (fun _ => LeaseReply) (Option Fault)

def pools (leases : List (Lease π)) : List π := leases.filterMap Lease.pool

/-- The pool that a statement took a device of. -/
def takenPool (event : LeaseEvent π) : Option π :=
  match event.stmt, event.reply with
  | .get pool, .done => some pool
  | _, _ => none

/-- The lease that a statement made. -/
def madeLease (event : LeaseEvent π) : Option (Lease π) :=
  match event.stmt, event.reply with
  | .launch _ _, .raised _ => none
  | .launch name pool, _ => some ⟨name, some pool⟩
  | .join _, .raised _ => none
  | .join name, _ => some ⟨name, none⟩
  | _, _ => none

def releasedLease (event : LeaseEvent π) : Option (Lease π) :=
  match event.stmt with
  | .release lease => some lease
  | _ => none

/-- An acquisition that raised. -/
def acquisitionRaised (event : LeaseEvent π) : Bool :=
  match event.stmt, event.reply with
  | .get _, .raised _ => true
  | .launch _ _, .raised _ => true
  | .join _, .raised _ => true
  | _, _ => false

/-- A release that raised what is no `Exception`, which is not caught. -/
def releaseCutOff (event : LeaseEvent π) : Bool :=
  match event.stmt, event.reply with
  | .release _, .raised fault => !fault.isException
  | _, _ => false

theorem pools_append (xs ys : List (Lease π)) : pools (xs ++ ys) = pools xs ++ pools ys := List.filterMap_append ..

theorem pools_leasesOf (g : StartingGroup) : pools (leasesOf targets g) = [poolOf targets g] := by
  rw [pools, leasesOf, List.filterMap_cons, List.filterMap_map]
  exact congrArg (poolOf targets g :: ·) (List.filterMap_eq_nil_iff.mpr fun _ _ => rfl)

theorem pools_flatMap (gs : List StartingGroup) :
    pools (gs.flatMap (leasesOf targets)) = gs.map (poolOf targets) := by
  induction gs with
  | nil => rfl
  | cons g gs ih =>
    rw [List.flatMap_cons, pools_append, pools_leasesOf, ih]
    rfl

theorem names_leasesOf (g : StartingGroup) : (leasesOf targets g).map Lease.name = g.val.reverse := by
  rw [leasesOf, List.map_cons, List.map_map, ← g.anchor_joining]
  exact congrArg _ (List.map_id _)

/-- The call has made the first of its leases and goes on with the later ones. -/
structure Going (targets : String → TargetPool π) (s : LoadedScenario) (events : List (LeaseEvent π))
    (held later : List (Lease π)) (hand : List π) : Prop where
  made : events.filterMap madeLease = held
  plan : held ++ later = allLeases targets s
  taken : events.filterMap takenPool = pools held ++ hand
  ahead : hand <+: pools later
  released : events.filterMap releasedLease = []
  quiet : events.any acquisitionRaised = false

/-- The call gives back what it has made, the last lease first. -/
structure Unwinding (targets : String → TargetPool π) (s : LoadedScenario) (events : List (LeaseEvent π))
    (leases : List (Lease π)) : Prop where
  made : events.filterMap madeLease = (events.filterMap releasedLease ++ leases).reverse
  plan : events.filterMap madeLease <+: allLeases targets s
  taken : events.filterMap takenPool <+: leasePools targets s

/-- What a call has taken, made and given back, by the statements it ran. -/
def LeaseLedger (targets : String → TargetPool π) (s : LoadedScenario) (events : List (LeaseEvent π)) :
    LeasePlace π → Prop
  | .taking held g rest => Going targets s events held ((g :: rest).flatMap (leasesOf targets)) []
  | .launching held g rest => Going targets s events held ((g :: rest).flatMap (leasesOf targets)) [poolOf targets g]
  | .joining held name names rest =>
    Going targets s events held ((name :: names).map (⟨·, none⟩) ++ rest.flatMap (leasesOf targets)) []
  | .returned held => Going targets s events held [] []
  | .closed => events.any acquisitionRaised = false ∧ events.filterMap takenPool <+: leasePools targets s
  | .releasing lease leases => Unwinding targets s events (lease :: leases)
  | .raised => Unwinding targets s events []
  | .cutOff leases => Unwinding targets s events leases ∧ events.any releaseCutOff = true

theorem pools_allLeases : pools (allLeases targets s) = leasePools targets s := pools_flatMap _

theorem Going.taken_prefix {events : List (LeaseEvent π)} {held later : List (Lease π)} {hand : List π}
    (h : Going targets s events held later hand) : events.filterMap takenPool <+: leasePools targets s := by
  rw [h.taken, ← pools_allLeases, ← h.plan, pools_append]
  exact (List.prefix_append_right_inj _).mpr h.ahead

theorem Going.made_prefix {events : List (LeaseEvent π)} {held later : List (Lease π)} {hand : List π}
    (h : Going targets s events held later hand) : events.filterMap madeLease <+: allLeases targets s := by
  rw [h.made, ← h.plan]
  exact List.prefix_append _ _

theorem Unwinding.releaseAll {events : List (LeaseEvent π)} {leases : List (Lease π)}
    (h : Unwinding targets s events leases) : LeaseLedger targets s events (releaseAll leases) := by
  cases leases with
  | nil => exact h
  | cons lease leases => exact h

theorem Going.unwind {events : List (LeaseEvent π)} {held later : List (Lease π)} {hand : List π}
    (h : Going targets s events held later hand) {event : LeaseEvent π} (hMade : madeLease event = none)
    (hTaken : takenPool event = none) (hReleased : releasedLease event = none) :
    LeaseLedger targets s (events ++ [event]) (releaseAll held.reverse) := by
  apply Unwinding.releaseAll
  constructor
  · rw [Machine.filterMap_concat, Machine.filterMap_concat, hMade, hReleased, h.made, h.released]
    simp
  · rw [Machine.filterMap_concat, hMade, Option.toList_none, List.append_nil]
    exact h.made_prefix
  · rw [Machine.filterMap_concat, hTaken, Option.toList_none, List.append_nil]
    exact h.taken_prefix

theorem Going.nextGroup {events : List (LeaseEvent π)} {held : List (Lease π)} {rest : List StartingGroup}
    (h : Going targets s events held (rest.flatMap (leasesOf targets)) []) :
    LeaseLedger targets s events (nextGroup held rest) := by
  cases rest with
  | nil => exact h
  | cons g rest => exact h

theorem Going.nextMember {events : List (LeaseEvent π)} {held : List (Lease π)} {names : List String}
    {rest : List StartingGroup}
    (h : Going targets s events held (names.map (⟨·, none⟩) ++ rest.flatMap (leasesOf targets)) []) :
    LeaseLedger targets s events (nextMember held rest names) := by
  cases names with
  | nil => exact h.nextGroup
  | cons name names => exact h

theorem Going.make {events : List (LeaseEvent π)} {held later : List (Lease π)} {hand : List π} {lease : Lease π}
    (h : Going targets s events held (lease :: later) hand) (hHand : lease.pool.toList = hand) {event : LeaseEvent π}
    (hMade : madeLease event = some lease) (hTaken : takenPool event = none) (hReleased : releasedLease event = none)
    (hQuiet : acquisitionRaised event = false) :
    Going targets s (events ++ [event]) (held ++ [lease]) later [] where
  made := by rw [Machine.filterMap_concat, hMade, h.made, Option.toList_some]
  plan := by rw [List.append_assoc, List.singleton_append, h.plan]
  taken := by
    rw [Machine.filterMap_concat, hTaken, h.taken, pools_append, ← hHand]
    simp only [pools, List.filterMap_cons, List.filterMap_nil]
    cases lease.pool <;> rfl
  ahead := List.nil_prefix
  released := by rw [Machine.filterMap_concat, hReleased, h.released]; rfl
  quiet := by rw [List.any_append, h.quiet, List.any_cons, hQuiet]; rfl

theorem Going.take {events : List (LeaseEvent π)} {held later : List (Lease π)} {hand : List π}
    (h : Going targets s events held later []) {event : LeaseEvent π} (hMade : madeLease event = none)
    (hTaken : (takenPool event).toList = hand) (hReleased : releasedLease event = none)
    (hQuiet : acquisitionRaised event = false) (hAhead : hand <+: pools later) :
    Going targets s (events ++ [event]) held later hand where
  made := by rw [Machine.filterMap_concat, hMade, h.made, Option.toList_none, List.append_nil]
  plan := h.plan
  taken := by rw [Machine.filterMap_concat, hTaken, h.taken, List.append_nil]
  ahead := hAhead
  released := by
    rw [Machine.filterMap_concat, hReleased, h.released]
    rfl
  quiet := by
    rw [List.any_append, h.quiet, List.any_cons, hQuiet]
    rfl

theorem Unwinding.release {events : List (LeaseEvent π)} {lease : Lease π} {leases : List (Lease π)}
    (h : Unwinding targets s events (lease :: leases)) (n : Nat) (fault : Option Fault) (reply : LeaseReply) :
    Unwinding targets s (events ++ [⟨n, fault, .release lease, reply⟩]) leases where
  made := by
    rw [Machine.filterMap_concat, Machine.filterMap_concat]
    change _ ++ [] = (_ ++ [lease] ++ leases).reverse
    rw [List.append_nil, List.append_assoc, List.singleton_append]
    exact h.made
  plan := by
    rw [Machine.filterMap_concat]
    exact (List.append_nil _).symm ▸ h.plan
  taken := by
    rw [Machine.filterMap_concat]
    exact (List.append_nil _).symm ▸ h.taken

theorem LeaseLedger.step {events : List (LeaseEvent π)} {place : LeasePlace π}
    (h : LeaseLedger targets s events place) {stmt : LeaseStatement π} {rest : LeaseReply → LeasePlace π}
    (hNext : nextLease targets place = some ⟨stmt, rest⟩) (n : Nat) (fault : Option Fault) (reply : LeaseReply) :
    LeaseLedger targets s (events ++ [⟨n, fault, stmt, reply⟩]) (rest reply) := by
  cases place with
  | taking held g groups =>
    cases hNext
    have hGoing : Going targets s events held ((g :: groups).flatMap (leasesOf targets)) [] := h
    cases reply with
    | blocked => exact hGoing.take rfl rfl rfl rfl List.nil_prefix
    | done =>
      have hAhead : [poolOf targets g] <+: pools ((g :: groups).flatMap (leasesOf targets)) := by
        rw [pools_flatMap, List.map_cons]
        exact ⟨_, rfl⟩
      exact hGoing.take rfl rfl rfl rfl hAhead
    | raised fault => exact hGoing.unwind rfl rfl rfl
  | launching held g groups =>
    cases hNext
    have hGoing : Going targets s events held ((g :: groups).flatMap (leasesOf targets)) [poolOf targets g] := h
    cases reply with
    | raised fault => exact hGoing.unwind rfl rfl rfl
    | _ => exact (hGoing.make rfl rfl rfl rfl rfl).nextMember
  | joining held name names groups =>
    cases hNext
    have hGoing : Going targets s events held
      ((name :: names).map (⟨·, none⟩) ++ groups.flatMap (leasesOf targets)) [] := h
    cases reply with
    | raised fault => exact hGoing.unwind rfl rfl rfl
    | _ => exact (hGoing.make rfl rfl rfl rfl rfl).nextMember
  | returned held =>
    cases hNext
    have hGoing : Going targets s events held [] [] := h
    constructor
    · rw [List.any_append, hGoing.quiet]
      rfl
    · rw [Machine.filterMap_concat]
      exact (List.append_nil _).symm ▸ hGoing.taken_prefix
  | releasing lease leases =>
    cases hNext
    have hUnwinding : Unwinding targets s events (lease :: leases) := h
    cases reply with
    | raised fault' =>
      have hReleased := hUnwinding.release n fault (.raised fault')
      change LeaseLedger targets s _ (if fault'.isException then releaseAll leases else .cutOff leases)
      split
      · exact hReleased.releaseAll
      · rename_i hFault
        refine ⟨hReleased, ?_⟩
        simp [releaseCutOff, hFault]
    | blocked => exact (hUnwinding.release n fault .blocked).releaseAll
    | done => exact (hUnwinding.release n fault .done).releaseAll
  | closed => cases hNext
  | raised => cases hNext
  | cutOff leases => cases hNext

theorem LeaseLedger.start : LeaseLedger targets s [] (nextGroup [] (leaseOrder targets s)) :=
  Going.nextGroup ⟨rfl, rfl, rfl, List.nil_prefix, rfl, rfl⟩

variable [DecidableEq π] {scenarios : Set LoadedScenario} {sizes : π → Nat}

abbrev LeaseConfig (π : Type) (scenarios : Set LoadedScenario) :=
  Config (π → Nat) (LeaseStatement π) (fun _ => LeaseReply) (Option Fault) { s // s ∈ scenarios } (LeasePlace π)

theorem ledger_reached {st : LeaseConfig π scenarios} (h : (leaseTargets targets scenarios).Reaches (.init sizes) st)
    {n : Nat} {s : { s // s ∈ scenarios }} {place : LeasePlace π} (hThread : st.threads[n]? = some (s, place)) :
    LeaseLedger targets s.val (Machine.eventsOf n st.history) place := by
  have hDrives := (h.sound (Machine.Sound.init sizes)).drives n s place hThread
  exact hDrives.concat_induction LeaseLedger.start fun _ _ _ _ m e reply hLedger hNext =>
    hLedger.step hNext m e reply

end Bajutsu.Runner
