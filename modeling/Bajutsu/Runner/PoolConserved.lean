import Bajutsu.Runner.Pool

/-!
# Devices go back to the pool

A lease that has a device puts one device back on each of its ways to its end, the one it took or the replacement
that was reported for it, unless a call raises where nothing handles it.
-/

namespace Bajutsu.Runner.Pool

open Interleaving PyValue

/-- The device a lease has after a statement. -/
def holds : Option String → (s : Statement) → Reply s → Option String
  | _, .get, udid => udid
  | _, .put _, _ => none
  | some udid, .call _ (.replacedDevice _), reply =>
    let reply : Except Failure (Option String) := reply
    match reply with
    | .ok (some replacement) => some replacement
    | _ => some udid
  | device, _, _ => device

/-- What a lease that has a device, or has none any more, may run. -/
def Allowed (device : Option String) : Statement → Prop
  | .get => False
  | .put udid => device = some udid
  | .call _ (.replacedDevice _) => device.isSome
  | _ => True

/-- A call that raises where nothing handles it. -/
def Leaks : (s : Statement) → Reply s → Prop
  | .call site _, .error _ => site = .beforeTry ∨ site = .inRelease
  | _, _ => False

/-- On each way to its end, the program puts the device back once. -/
def Tracks : Option String → Program → Prop
  | device, .ret _ => device = none
  | device, .stmt s rest => Allowed device s ∧ ∀ reply, ¬Leaks s reply → Tracks (holds device s reply) (rest reply)

/-! ## The programs -/

/-- A call that does not ask for a replacement. -/
def Plain (c : Ext) : Prop := ∀ env, c ≠ .replacedDevice env

theorem holds_plain {c : Ext} (h : Plain c) (device : Option String) (site : Site) (reply : Except Failure (Value c)) :
    Allowed device (.call site c) ∧ holds device (.call site c) reply = device := by
  cases c with
  | replacedDevice env => exact absurd rfl (h env)
  | _ => exact ⟨trivial, by cases device <;> rfl⟩

variable {device : Option String} {udid : String} {l : Locals} {network : Bool}

theorem tracks_stmt {s : Statement} {rest : Reply s → Program} (hAllowed : Allowed device s)
    (h : ∀ reply, ¬Leaks s reply → Tracks (holds device s reply) (rest reply)) : Tracks device (.stmt s rest) :=
  ⟨hAllowed, h⟩

theorem tracks_call {site : Site} {c : Ext} {rest : Except Failure (Value c) → Program} (hPlain : Plain c)
    (h : ∀ reply, ¬Leaks (.call site c) reply → Tracks device (rest reply)) : Tracks device (.stmt (.call site c) rest) := by
  refine tracks_stmt (holds_plain hPlain device site (.error .process)).1 fun reply hLeaks => ?_
  rw [(holds_plain hPlain device site reply).2]
  exact h reply hLeaks

theorem tracks_guarded {c : Ext} {andThen : Program} (hPlain : Plain c) (h : Tracks device andThen) :
    Tracks device (guarded c andThen) :=
  tracks_call hPlain fun _ _ => h

theorem tracks_releaseBridges {andThen : Program} (h : Tracks device andThen) (bridges : List Nat) :
    Tracks device (releaseBridges andThen bridges) := by
  induction bridges with
  | nil => exact h
  | cons bridge bridges ih => exact tracks_guarded (nofun) ih

theorem tracks_stopCollector {andThen : Program} (h : Tracks device andThen) (collector : Option Nat) :
    Tracks device (stopCollector andThen collector) := by
  cases collector with
  | none => exact h
  | some collector => exact tracks_guarded (nofun) h

theorem tracks_put {result : Result} : Tracks (some udid) (.stmt (.put udid) fun _ => .ret result) :=
  ⟨rfl, fun _ _ => rfl⟩

theorem tracks_adoptReplacement {site : Site} {raised : Locals → Failure → Program} {andThen : Locals → Program}
    (hRaised : ∀ udid failure, Tracks (some udid) (raised { l with udid := udid } failure))
    (hThen : ∀ udid, Tracks (some udid) (andThen { l with udid := udid })) :
    Tracks (some l.udid) (adoptReplacement site l raised andThen) := by
  refine ⟨rfl, fun (reply : Except Failure (Option String)) _ => ?_⟩
  rcases reply with failure | (_ | replacement)
  · exact hRaised l.udid failure
  · exact hThen l.udid
  · change Tracks (some replacement) (if replacement = l.udid then andThen l else _)
    split
    · rename_i hSame
      rw [hSame]
      exact hThen l.udid
    · refine ⟨trivial, fun _ _ => ⟨trivial, fun _ _ => ⟨trivial, fun _ _ => ⟨trivial, fun (reply : Except Failure Unit) _ => ?_⟩⟩⟩⟩
      cases reply with
      | error failure => exact hRaised replacement failure
      | ok value => exact hThen replacement

theorem tracks_failedLease (l : Locals) (failure : Failure) : Tracks (some l.udid) (failedLease l failure) := by
  have hAdopt : Tracks (some l.udid)
      (adoptReplacement .guarded l (fun l _ => giveBack failure l) (giveBack failure)) :=
    tracks_adoptReplacement (fun _ _ => tracks_put) fun _ => tracks_put
  apply tracks_releaseBridges
  apply tracks_stopCollector
  refine tracks_stmt trivial fun (stale : Option Resident) _ => ?_
  cases stale with
  | some resident => exact tracks_guarded (nofun) hAdopt
  | none =>
    cases hLaunched : l.launched with
    | some driver => exact tracks_guarded (nofun) hAdopt
    | none => exact hAdopt

theorem tracks_attempt {c : Ext} {andThen : Value c → Program} (hPlain : Plain c)
    (h : ∀ value, Tracks (some l.udid) (andThen value)) : Tracks (some l.udid) (attempt c l andThen) := by
  refine tracks_call hPlain fun reply _ => ?_
  cases reply with
  | error failure => exact tracks_failedLease l failure
  | ok value => exact h value

theorem tracks_takeSnapshot (l : Locals) : Tracks (some l.udid) (takeSnapshot l) := tracks_guarded (nofun) tracks_put

theorem tracks_discardResident (l : Locals) (driver : Nat) (reusable : Bool) :
    Tracks (some l.udid) (discardResident l driver reusable) := by
  rw [discardResident]
  split
  · exact tracks_stmt trivial fun _ _ => tracks_guarded (nofun) (tracks_takeSnapshot l)
  · exact tracks_takeSnapshot l

theorem tracks_release (l : Locals) (driver : Nat) : Tracks (some l.udid) (release l driver) := by
  apply tracks_releaseBridges
  apply tracks_stopCollector
  refine tracks_call (nofun) fun (reply : Except Failure Bool) hLeaks => ?_
  rcases reply with failure | reusable
  · exact absurd (.inr rfl) hLeaks
  · refine tracks_call ?_ fun ended _ => ?_
    · intro env
      split <;> exact nofun
    · rcases ended with (_ | _) | _
      · exact tracks_discardResident ..
      · exact tracks_stmt trivial fun _ _ => tracks_discardResident ..
      · exact tracks_takeSnapshot l

theorem tracks_finish (l : Locals) (driver : Nat) : Tracks (some l.udid) (finish l driver) := by
  refine tracks_attempt (nofun) fun _ => ?_
  refine tracks_attempt (nofun) fun _ => ?_
  exact tracks_stmt trivial fun _ _ => tracks_release l driver

theorem tracks_buildLease (l : Locals) (driver : Nat) : Tracks (some l.udid) (buildLease network l driver) := by
  refine tracks_attempt (nofun) fun _ => ?_
  refine tracks_attempt (nofun) fun (observes : Bool) => ?_
  split
  · exact tracks_attempt (nofun) fun (collector : Collector) => tracks_finish { l with collector := some collector.id } driver
  · exact tracks_finish l driver

theorem tracks_keepWarm (l : Locals) (driver : Nat) : Tracks (some l.udid) (keepWarm network l driver) := by
  refine tracks_stmt trivial fun _ _ => ?_
  refine tracks_attempt (nofun) fun (reusable : Bool) => ?_
  cases reusable with
  | true => exact tracks_stmt trivial fun _ _ => tracks_buildLease l driver
  | false => exact tracks_buildLease l driver

theorem tracks_launched (l : Locals) (driver : Nat) : Tracks (some l.udid) (launched network l driver) :=
  @tracks_adoptReplacement { l with launched := some driver } .inTry failedLease (fun l => keepWarm network l driver)
    (fun udid => tracks_failedLease { l with launched := some driver, udid := udid })
    fun udid => tracks_keepWarm { l with launched := some driver, udid := udid } driver

theorem tracks_launch (l : Locals) : Tracks (some l.udid) (launch network l) := by
  refine tracks_attempt (nofun) fun (bridge : Nat) => ?_
  change Tracks (some ({ l with bridges := l.bridges ++ [bridge] } : Locals).udid) _
  refine tracks_attempt (nofun) fun _ => ?_
  refine tracks_attempt (nofun) fun _ => ?_
  exact tracks_attempt (nofun) fun driver => tracks_launched _ driver

theorem tracks_bridgeCollector (l : Locals) (collector : Option Collector) :
    Tracks (some l.udid) (bridgeCollector l collector (launch network)) := by
  rcases collector with _ | ⟨id, _ | _⟩
  · exact tracks_launch l
  · exact tracks_launch l
  · refine tracks_attempt (nofun) fun _ => ?_
    exact tracks_attempt (nofun) fun (bridge : Nat) => tracks_launch { l with bridges := [bridge] }

theorem tracks_chooseCollector (l : Locals) (provider : Option String) :
    Tracks (some l.udid) (chooseCollector network l provider) := by
  refine tracks_attempt (nofun) fun (observes : Bool) => ?_
  cases observes with
  | true => exact tracks_launch l
  | false =>
    cases hProvider : if network then provider else none with
    | some provider =>
      exact tracks_attempt (nofun) fun (fallback : Collector) =>
        tracks_bridgeCollector { l with collector := some fallback.id } (some fallback)
    | none => exact tracks_stmt trivial fun _ _ => tracks_bridgeCollector l _

theorem tracks_tryLease (l : Locals) (provider : Option String) : Tracks (some l.udid) (tryLease network l provider) := by
  refine tracks_attempt (nofun) fun (upFront : Bool) => ?_
  cases upFront with
  | false => exact tracks_chooseCollector l provider
  | true =>
    refine tracks_attempt (nofun) fun (video : Bool) => ?_
    cases video with
    | false => exact tracks_chooseCollector l provider
    | true => exact tracks_attempt (nofun) fun _ => tracks_chooseCollector l provider

theorem tracks_bare {c : Ext} {andThen : Value c → Program} (hPlain : Plain c)
    (h : ∀ value, Tracks device (andThen value)) : Tracks device (bare c andThen) := by
  refine tracks_call hPlain fun reply hLeaks => ?_
  cases reply with
  | error failure => exact absurd (.inl rfl) hLeaks
  | ok value => exact h value

theorem tracks_resolveProviders (udid actuator : String) (env : Nat) :
    Tracks (some udid) (resolveProviders network udid actuator env) := by
  refine tracks_bare (nofun) fun _ => ?_
  refine tracks_bare (nofun) fun provider => ?_
  exact tracks_bare (nofun) fun _ => tracks_tryLease ⟨udid, actuator, env, none, [], none⟩ provider

theorem tracks_buildEnvironment (udid actuator : String) (cached : Option Resident) :
    Tracks (some udid) (buildEnvironment network udid actuator cached) := by
  cases cached with
  | some resident => exact tracks_resolveProviders udid actuator resident.env
  | none =>
    refine tracks_stmt trivial fun _ _ => ?_
    exact tracks_bare (nofun) fun env => tracks_resolveProviders udid actuator env

theorem tracks_lease (udid : String) : Tracks (some udid) (lease network udid) := by
  refine tracks_bare (nofun) fun (actuator : String) => ?_
  refine tracks_stmt trivial fun (cached : Option Resident) _ => ?_
  cases cached with
  | none => exact tracks_buildEnvironment udid actuator none
  | some resident =>
    by_cases hSame : resident.actuator = actuator
    · simp only [if_pos hSame]
      exact tracks_buildEnvironment udid actuator (some resident)
    · simp only [if_neg hSame]
      refine tracks_stmt trivial fun _ _ => ?_
      exact tracks_guarded (nofun) (tracks_buildEnvironment udid actuator none)

end Bajutsu.Runner.Pool
