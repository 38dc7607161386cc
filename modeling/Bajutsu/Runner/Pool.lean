import Bajutsu.Lib.Interleaving
import Bajutsu.Lib.PyValue
import Mathlib.Data.Finset.Basic

/-!
# The device pool

A worker takes a free device, brings the app up on it, and puts the device back when the lease is released or
fails to start. Each call of the pool's surroundings may raise, at any of its places.
-/

namespace Bajutsu.Runner.Pool

open Interleaving PyValue

/-- What a call raised: a failed process or an `OSError`, which a teardown only warns of, or anything else. -/
inductive Failure where
  | process
  | defect
  deriving DecidableEq

/-- The environments, drivers, collectors and tunnels are known by numbers. -/
structure Resident where
  actuator : String
  env : Nat
  driver : Nat

structure Collector where
  id : Nat
  isNetworkCollector : Bool

/-- The calls that a lease makes of others. -/
inductive Ext where
  | selectActuatorForScenario
  | environmentFor (actuator udid : String) (respawn : Bool)
  | capabilitiesForRun (actuator udid : String)
  | evidenceProviders (actuator : String)
  | requestedIntervals
  | recordsVideoUpFront (env : Nat)
  | reserveVideoDir
  | observesNetworkViaDriver (env : Nat)
  | networkCollector (provider udid : String)
  | collectorEnv (collector : Nat)
  | bridgeCollector (env collector : Nat)
  | allocWebviewBridge (env : Nat)
  | allocZorder (env : Nat)
  | resolvePreconditions
  | launchDriver (udid actuator : String) (env : Nat)
  | replacedDevice (env : Nat)
  | deviceCatalog (env : Nat)
  | hasReusableResident (env : Nat)
  | fileSink (udid : String) (env driver : Nat)
  | hookCollector (env driver : Nat)
  | relauncher (env driver : Nat)
  | controller (env : Nat)
  | releaseBridge (bridge : Nat)
  | stopCollector (collector : Nat)
  | endLease (env driver : Nat)
  | teardown (env driver : Nat)
  | takeCrashSnapshot (env : Nat)

/-- `requestedIntervals` says whether video is asked for, `evidenceProviders` names the network's provider. -/
def Value : Ext → Type
  | .selectActuatorForScenario => String
  | .environmentFor .. => Nat
  | .evidenceProviders _ => Option String
  | .requestedIntervals => Bool
  | .recordsVideoUpFront _ => Bool
  | .observesNetworkViaDriver _ => Bool
  | .networkCollector .. => Collector
  | .bridgeCollector .. => Nat
  | .allocWebviewBridge _ => Nat
  | .launchDriver .. => Nat
  | .replacedDevice _ => Option String
  | .hasReusableResident _ => Bool
  | .hookCollector .. => Collector
  | _ => Unit

/-- What a call gives, when it is made. -/
abbrev World := (c : Ext) → Except Failure (Value c)

/-- Where a call is made: before the `try` of `lease`, in it, in a guarded teardown, or at the start of `release`,
outside its guards. -/
inductive Site where
  | beforeTry
  | inTry
  | guarded
  | inRelease
  deriving DecidableEq

structure Shared where
  free : List String
  warm : List (String × Resident)
  collectors : List (String × Nat)
  everSpawned : Finset String
  leaseDefect : Option Failure

inductive Statement where
  | get
  | put (udid : String)
  | warmGet (udid : String)
  | warmPop (udid : String)
  | warmSet (udid : String) (resident : Resident)
  | collectorOf (udid : String)
  | moveCollector (udid replacement : String)
  | spawned (udid : String)
  | addSpawned (udid : String)
  | discardSpawned (udid : String)
  | recordLeaseDefect (failure : Failure)
  | leased (udid : String)
  | call (site : Site) (c : Ext)

def Reply : Statement → Type
  | .get => Option String
  | .put _ => Unit
  | .warmGet _ => Option Resident
  | .warmPop _ => Option Resident
  | .warmSet .. => Unit
  | .collectorOf _ => Option Nat
  | .moveCollector .. => Unit
  | .spawned _ => Bool
  | .addSpawned _ => Unit
  | .discardSpawned _ => Unit
  | .recordLeaseDefect _ => Unit
  | .leased _ => Unit
  | .call _ c => Except Failure (Value c)

/-- A `get` with no device free finds nothing, and its worker waits on. -/
def exec : (s : Statement) → World → Shared → Shared × Reply s
  | .get, _, shared =>
    match shared.free with
    | [] => (shared, none)
    | udid :: free => ({ shared with free := free }, some udid)
  | .put udid, _, shared => ({ shared with free := shared.free ++ [udid] }, ())
  | .warmGet udid, _, shared => (shared, get shared.warm udid)
  | .warmPop udid, _, shared => ({ shared with warm := pop shared.warm udid }, get shared.warm udid)
  | .warmSet udid resident, _, shared => ({ shared with warm := set shared.warm udid resident }, ())
  | .collectorOf udid, _, shared => (shared, get shared.collectors udid)
  | .moveCollector udid replacement, _, shared =>
    match get shared.collectors udid with
    | none => (shared, ())
    | some moved => ({ shared with collectors := set (pop shared.collectors udid) replacement moved }, ())
  | .spawned udid, _, shared => (shared, decide (udid ∈ shared.everSpawned))
  | .addSpawned udid, _, shared => ({ shared with everSpawned := insert udid shared.everSpawned }, ())
  | .discardSpawned udid, _, shared => ({ shared with everSpawned := shared.everSpawned.erase udid }, ())
  | .recordLeaseDefect failure, _, shared =>
    ({ shared with leaseDefect := shared.leaseDefect <|> some failure }, ())
  | .leased _, _, shared => (shared, ())
  | .call _ c, world, shared => (shared, world c)

inductive Result where
  | released
  | raised (failure : Failure)
  deriving DecidableEq

abbrev Program := Prog Statement Reply Result

/-- The variables of a lease that its handlers and its release read. -/
structure Locals where
  udid : String
  actuator : String
  env : Nat
  launched : Option Nat
  bridges : List Nat
  collector : Option Nat

/-- `guarded_teardown` with `mid_run=True`. -/
def guarded (c : Ext) (andThen : Program) : Program := .stmt (.call .guarded c) fun _ => andThen

/-- The collector's tunnel and the WebView's, each torn down whatever the other raises. -/
def releaseBridges (andThen : Program) : List Nat → Program
  | [] => andThen
  | bridge :: bridges => guarded (.releaseBridge bridge) (releaseBridges andThen bridges)

def stopCollector (andThen : Program) : Option Nat → Program
  | none => andThen
  | some collector => guarded (.stopCollector collector) andThen

/-- `adopt_replacement`, made at a site that handles what it raises. -/
def adoptReplacement (site : Site) (l : Locals) (raised : Locals → Failure → Program) (andThen : Locals → Program) :
    Program :=
  .stmt (.call site (.replacedDevice l.env)) fun
    | .error failure => raised l failure
    | .ok none => andThen l
    | .ok (some replacement) =>
      if replacement = l.udid then andThen l
      else
        .stmt (.moveCollector l.udid replacement) fun _ =>
        .stmt (.warmPop l.udid) fun _ =>
        .stmt (.discardSpawned l.udid) fun _ =>
        .stmt (.call site (.deviceCatalog l.env)) fun
          | .error failure => raised { l with udid := replacement } failure
          | .ok _ => andThen { l with udid := replacement }

/-- The device goes back as the exception goes on. -/
def giveBack (failure : Failure) (l : Locals) : Program := .stmt (.put l.udid) fun _ => .ret (.raised failure)

/-- The handler of the exceptions in the `try` of `lease`. -/
def failedLease (l : Locals) (failure : Failure) : Program :=
  releaseBridges
    (stopCollector
      (.stmt (.warmPop l.udid) fun stale =>
        let adopt := adoptReplacement .guarded l (fun l _ => giveBack failure l) (giveBack failure)
        match stale, l.launched with
        | some resident, _ => guarded (.teardown resident.env resident.driver) adopt
        | none, some driver => guarded (.teardown l.env driver) adopt
        | none, none => adopt)
      l.collector)
    l.bridges

/-- A call in the `try` of `lease`. -/
def attempt (c : Ext) (l : Locals) (andThen : Value c → Program) : Program :=
  .stmt (.call .inTry c) fun
    | .error failure => failedLease l failure
    | .ok value => andThen value

/-- The end of a release: the crash evidence is taken, and the device goes back. -/
def takeSnapshot (l : Locals) : Program :=
  guarded (.takeCrashSnapshot l.env) (.stmt (.put l.udid) fun _ => .ret .released)

/-- A resident whose lease did not end is not kept. -/
def discardResident (l : Locals) (driver : Nat) (reusable : Bool) : Program :=
  if reusable then .stmt (.warmPop l.udid) fun _ => guarded (.teardown l.env driver) (takeSnapshot l)
  else takeSnapshot l

/-- The `release` of a lease. -/
def release (l : Locals) (driver : Nat) : Program :=
  releaseBridges
    (stopCollector
      (.stmt (.call .inRelease (.hasReusableResident l.env)) fun
        | .error failure => .ret (.raised failure)
        | .ok (reusable : Bool) =>
          .stmt (.call .guarded (if reusable then .endLease l.env driver else .teardown l.env driver)) fun
            | .ok _ => takeSnapshot l
            | .error .process => discardResident l driver reusable
            | .error .defect => .stmt (.recordLeaseDefect .defect) fun _ => discardResident l driver reusable)
      l.collector)
    l.bridges

section Lease

variable (network : Bool)

/-- The collector's address goes to the app, and its port to the device. -/
def bridgeCollector (l : Locals) (collector : Option Collector) (andThen : Locals → Program) : Program :=
  match collector with
  | some ⟨id, true⟩ =>
    attempt (.collectorEnv id) l fun _ =>
      attempt (.bridgeCollector l.env id) l fun (bridge : Nat) => andThen { l with bridges := [bridge] }
  | _ => andThen l

/-- The lease is returned, and released later. -/
def finish (l : Locals) (driver : Nat) : Program :=
  attempt (.relauncher l.env driver) l fun _ =>
  attempt (.controller l.env) l fun _ =>
  .stmt (.leased l.udid) fun _ => release l driver

def buildLease (l : Locals) (driver : Nat) : Program :=
  attempt (.fileSink l.udid l.env driver) l fun _ =>
  attempt (.observesNetworkViaDriver l.env) l fun (observes : Bool) =>
    if observes && network then
      attempt (.hookCollector l.env driver) l fun (collector : Collector) =>
        finish { l with collector := some collector.id } driver
    else finish l driver

def keepWarm (l : Locals) (driver : Nat) : Program :=
  .stmt (.addSpawned l.udid) fun _ =>
  attempt (.hasReusableResident l.env) l fun (reusable : Bool) =>
    if reusable then .stmt (.warmSet l.udid ⟨l.actuator, l.env, driver⟩) fun _ => buildLease network l driver
    else buildLease network l driver

/-- What follows the launch. -/
def launched (l : Locals) (driver : Nat) : Program :=
  adoptReplacement .inTry { l with launched := some driver } failedLease fun l => keepWarm network l driver

def launch (l : Locals) : Program :=
  attempt (.allocWebviewBridge l.env) l fun (bridge : Nat) =>
    let l := { l with bridges := l.bridges ++ [bridge] }
    attempt (.allocZorder l.env) l fun _ =>
    attempt .resolvePreconditions l fun _ =>
    attempt (.launchDriver l.udid l.actuator l.env) l fun (driver : Nat) => launched network l driver

/-- The collector that observes the app, where the driver does not. -/
def chooseCollector (l : Locals) (provider : Option String) : Program :=
  attempt (.observesNetworkViaDriver l.env) l fun (observes : Bool) =>
    if observes then launch network l
    else
      match if network then provider else none with
      | some provider =>
        attempt (.networkCollector provider l.udid) l fun (fallback : Collector) =>
          bridgeCollector { l with collector := some fallback.id } (some fallback) (launch network)
      | none =>
        .stmt (.collectorOf l.udid) fun (collector : Option Nat) =>
          bridgeCollector l (collector.map fun id => ⟨id, true⟩) (launch network)

/-- The `try` of `lease`. -/
def tryLease (l : Locals) (provider : Option String) : Program :=
  attempt (.recordsVideoUpFront l.env) l fun (upFront : Bool) =>
    if upFront then
      attempt .requestedIntervals l fun (video : Bool) =>
        if video then attempt .reserveVideoDir l fun _ => chooseCollector network l provider
        else chooseCollector network l provider
    else chooseCollector network l provider

/-- A call before the `try`, which nothing handles. -/
def bare (c : Ext) (andThen : Value c → Program) : Program :=
  .stmt (.call .beforeTry c) fun
    | .error failure => .ret (.raised failure)
    | .ok value => andThen value

def resolveProviders (udid actuator : String) (env : Nat) : Program :=
  bare (.capabilitiesForRun actuator udid) fun _ =>
    bare (.evidenceProviders actuator) fun (provider : Option String) =>
      bare .requestedIntervals fun _ =>
        tryLease network ⟨udid, actuator, env, none, [], none⟩ provider

def buildEnvironment (udid actuator : String) : Option Resident → Program
  | some cached => resolveProviders network udid actuator cached.env
  | none =>
    .stmt (.spawned udid) fun (respawn : Bool) =>
      bare (.environmentFor actuator udid respawn) fun (env : Nat) => resolveProviders network udid actuator env

/-- `lease`, once it has a device. -/
def lease (udid : String) : Program :=
  bare .selectActuatorForScenario fun (actuator : String) =>
    .stmt (.warmGet udid) fun (cached : Option Resident) =>
      match cached with
      | none => buildEnvironment network udid actuator none
      | some resident =>
        if resident.actuator = actuator then buildEnvironment network udid actuator (some resident)
        else
          .stmt (.warmPop udid) fun _ =>
            guarded (.teardown resident.env resident.driver) (buildEnvironment network udid actuator none)

inductive Place where
  | waiting
  | running (p : Program)

def next : Place → Option ((s : Statement) × (Reply s → Place))
  | .waiting =>
    some ⟨.get, fun
      | none => .waiting
      | some udid => .running (lease network udid)⟩
  | .running p => p.next.map fun ⟨s, rest⟩ => ⟨s, fun reply => .running (rest reply)⟩

/-- Any number of leases, each of which is released once it is returned. -/
def pool : Machine Shared Statement Reply World Unit Place := ⟨exec, fun _ => .waiting, next network⟩

end Lease

abbrev System := Config Shared Statement Reply World Unit Place

abbrev Ran := Event Statement Reply World

/-- The pool of these devices, with the collectors that were started for them. -/
def Shared.init (udids : List String) (collectors : List (String × Nat)) : Shared := ⟨udids, [], collectors, ∅, none⟩

end Bajutsu.Runner.Pool
