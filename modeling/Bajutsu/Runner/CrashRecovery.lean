import Mathlib.Algebra.Order.Ring.Rat
import Mathlib.Data.Rat.Defs

/-!
# Crash recovery

A scenario whose backend crashes is leased and run again, within a number of attempts, a time for the scenario and a
total for the run. A retry forces the device's erase, and a crash that an erase does not clear asks for another device.
-/

namespace Bajutsu.Runner.CrashRecovery

variable {σ Lease Result Err : Type}

/-! ## The budgets -/

structure RetryDecision where
  willRetry : Bool
  budgetSpent : Bool

structure CrashRecoveryBudget where
  retries : Nat
  budget : Option ℚ
  deadline : Option ℚ := none

namespace CrashRecoveryBudget

def totalAttempts (self : CrashRecoveryBudget) : Nat := self.retries + 1

/-- `on_crash` at the time the clock gave. The deadline is set at the first crash. -/
def onCrash (self : CrashRecoveryBudget) (t : ℚ) (attempt : Nat) : RetryDecision × CrashRecoveryBudget :=
  let deadline := self.deadline.or (self.budget.map fun budget => t + budget)
  let withinCount := decide (attempt ≤ self.retries)
  let withinBudget := deadline.all fun deadline => t < deadline
  (⟨withinCount && withinBudget, withinCount && !withinBudget⟩, { self with deadline })

end CrashRecoveryBudget

inductive GiveUpCause where
  | devicePreparation
  | runBudget (budget : Option ℚ)
  deriving DecidableEq

structure RunCrashRecoveryBudget where
  budget : Option ℚ
  spent : ℚ := 0
  givenUpCause : Option GiveUpCause := none

namespace RunCrashRecoveryBudget

def new (budget : Option ℚ) : RunCrashRecoveryBudget := { budget := budget.filter fun budget => 0 < budget }

def exhausted (self : RunCrashRecoveryBudget) : Bool := self.budget.any fun budget => budget ≤ self.spent

/-- The first cause stays. -/
def markGivenUp (self : RunCrashRecoveryBudget) (cause : GiveUpCause) : RunCrashRecoveryBudget :=
  { self with givenUpCause := self.givenUpCause.or (some cause) }

def addRecoveryTime (self : RunCrashRecoveryBudget) (seconds : ℚ) : RunCrashRecoveryBudget :=
  { self with spent := self.spent + seconds }

end RunCrashRecoveryBudget

/-! ## The clock, the devices and the scenario -/

/-- Time does not go back, and a run that is given up stays so. -/
structure Later (time : σ → ℚ) (shared : σ → RunCrashRecoveryBudget) (st st' : σ) : Prop where
  time : time st ≤ time st'
  givenUp : (shared st).givenUpCause.isSome → (shared st').givenUpCause.isSome

/-- A clock, and the budget that the scenarios of a run share. -/
structure World (σ : Type) where
  time : σ → ℚ
  tick : σ → σ
  shared : σ → RunCrashRecoveryBudget
  setShared : RunCrashRecoveryBudget → σ → σ
  later_tick : ∀ st, Later time shared st (tick st)
  shared_set : ∀ r st, shared (setShared r st) = r
  time_set : ∀ r st, time (setShared r st) = time st

namespace World

variable (world : World σ)

def now (st : σ) : ℚ × σ := (world.time st, world.tick st)

abbrev Later (st st' : σ) : Prop := CrashRecovery.Later world.time world.shared st st'

end World

/-- The recordings that an attempt left behind, each with its kind and its path. -/
structure BackendCrash where
  partialArtifacts : List (String × String) := []

inductive Fault (Err : Type) where
  | crash (crash : BackendCrash)
  | deviceTimeout (e : Err)
  | deviceError (e : Err)
  | other (e : Err)

inductive Reinstall where
  | clean
  | erase
  | overwrite
  deriving DecidableEq

/-- The settings of a scenario's run with the merged `reinstall`, and what is called on the way. A set of leases is
taken with an erase or without, and what is there before the first lease may fail the scenario. -/
structure ScenarioRunner (world : World σ) (Lease Result Err : Type) where
  crashRetries : Nat
  crashRecoveryBudget : Option ℚ
  forceEraseOnRetry : Bool
  reinstall : Reinstall
  eraseSupported : Bool
  replacementSupported : Bool
  preflight : σ → Option String × σ
  alertGuard : σ → Option String × σ
  leaseSet : Bool → σ → Except (Fault Err) Lease × σ
  runOnLease : Lease → σ → Except (Fault Err) Result × σ
  cancelled : σ → Bool × σ
  videoStartStalled : Lease → σ → Bool × σ
  requestDeviceReplacement : Lease → σ → σ
  budget_pos : ∀ budget ∈ crashRecoveryBudget, 0 < budget
  later_preflight : ∀ st, world.Later st (preflight st).2
  later_alertGuard : ∀ st, world.Later st (alertGuard st).2
  later_lease : ∀ erase st, world.Later st (leaseSet erase st).2
  later_run : ∀ lz st, world.Later st (runOnLease lz st).2
  later_cancelled : ∀ st, world.Later st (cancelled st).2
  later_stalled : ∀ lz st, world.Later st (videoStartStalled lz st).2
  later_request : ∀ lz st, world.Later st (requestDeviceReplacement lz st)

/-! ## What an attempt leaves in the log -/

/-- The times the handler was entered and the budget was asked at, the answers of the run's budget and of the cancel
source, and whether another device was asked for. -/
structure CrashLog where
  entered : ℚ
  judged : ℚ
  exhausted : Bool
  cancelled : Bool
  replacement : Bool

structure AttemptLog where
  forcedErase : Bool
  leased : Option ℚ := none
  crash : Option CrashLog := none

structure Recovery (σ Lease : Type) where
  attempt : Nat := 1
  budget : CrashRecoveryBudget
  lastCrash : Option BackendCrash := none
  partialArtifacts : List (String × String) := []
  crashedLease : Option Lease := none
  recoveryStarted : Option ℚ := none
  replaced : Bool := false
  log : List AttemptLog := []
  billed : List ℚ := []
  st : σ

inductive Cause where
  | deviceTimeout
  | cancelled
  | runBudget
  | budget
  | attempts
  deriving DecidableEq

inductive Ended (Result Err : Type) where
  | refused (reason : String)
  | neverLeased (cause : GiveUpCause)
  | returned (result : Result)
  | raised (fault : Fault Err)
  | failed (cause : Cause)

section Attempts

variable {world : World σ} (runner : ScenarioRunner world Lease Result Err)

namespace ScenarioRunner

def canReplace : Bool := runner.forceEraseOnRetry && runner.reinstall ≠ .overwrite && runner.replacementSupported

def forcesErase (attempt : Nat) : Bool :=
  1 < attempt && runner.forceEraseOnRetry && runner.reinstall ≠ .overwrite && runner.eraseSupported

end ScenarioRunner

def addRecoveryTime (world : World σ) (seconds : ℚ) (s : Recovery σ Lease) : Recovery σ Lease :=
  { s with
    billed := s.billed ++ [seconds]
    st := world.setShared ((world.shared s.st).addRecoveryTime seconds) s.st }

/-- Bills the time since recovery started, where it did. -/
def endRecovery (world : World σ) (s : Recovery σ Lease) : Recovery σ Lease :=
  match s.recoveryStarted with
  | none => s
  | some started =>
    let (now, st) := world.now s.st
    addRecoveryTime world (now - started) { s with recoveryStarted := none, st }

def startRecovery (world : World σ) (s : Recovery σ Lease) : Recovery σ Lease :=
  match s.recoveryStarted with
  | some _ => s
  | none =>
    let (now, st) := world.now s.st
    { s with recoveryStarted := some now, st }

inductive Leased (Lease Err : Type) where
  | leased (lz : Lease)
  | timedOut
  | faulted (fault : Fault Err)

/-- A forced erase that fails degrades to a bare respawn, unless it timed out. -/
def leaseAttempt (forced : Bool) (st : σ) : Leased Lease Err × σ :=
  match runner.leaseSet forced st with
  | (.ok lz, st) => (.leased lz, st)
  | (.error (.deviceTimeout e), st) => if forced then (.timedOut, st) else (.faulted (.deviceTimeout e), st)
  | (.error (.deviceError e), st) =>
    if forced then
      match runner.leaseSet false st with
      | (.ok lz, st) => (.leased lz, st)
      | (.error fault, st) => (.faulted fault, st)
    else (.faulted (.deviceError e), st)
  | (.error fault, st) => (.faulted fault, st)

/-- Asks for another device for a crash on an erased one, or after a recording that never started. -/
def escalate (forced : Bool) (lease : Option Lease) (st : σ) : Bool × σ :=
  match lease with
  | none => (false, st)
  | some lz =>
    let (stalled, st) := runner.videoStartStalled lz st
    if forced || stalled then (true, runner.requestDeviceReplacement lz st) else (false, st)

/-- The cancel source is asked only about a retry. -/
def cancelledIf (allowed : Bool) (st : σ) : Bool × σ := if allowed then runner.cancelled st else (false, st)

def escalateIf (willing forced : Bool) (lease : Option Lease) (st : σ) : Bool × σ :=
  if willing then escalate runner forced lease st else (false, st)

/-- The handler of a crash, with the lease it came on. -/
def onCrash (forced : Bool) (lease : Option (Lease × ℚ)) (crash : BackendCrash) (s : Recovery σ Lease) :
    (Ended Result Err × Recovery σ Lease) ⊕ Recovery σ Lease :=
  let entered := world.time s.st
  let s := startRecovery world s
  let exhausted := (world.shared s.st).exhausted
  let (judged, st) := world.now s.st
  let (decision, budget) := s.budget.onCrash judged s.attempt
  let allowed := decision.willRetry && !exhausted
  let (cancelled, st) := cancelledIf runner allowed st
  let willRetry := allowed && !cancelled
  let (replacement, st) :=
    escalateIf runner (willRetry && runner.canReplace && !s.replaced) forced (lease.map Prod.fst) st
  let s := { s with
    budget
    lastCrash := some crash
    partialArtifacts := if crash.partialArtifacts = [] then s.partialArtifacts else crash.partialArtifacts
    crashedLease := (lease.map Prod.fst).or s.crashedLease
    replaced := s.replaced || replacement
    log := s.log ++ [⟨forced, lease.map Prod.snd, some ⟨entered, judged, exhausted, cancelled, replacement⟩⟩]
    st }
  if willRetry then .inr { s with attempt := s.attempt + 1 }
  else
    let cause :=
      if cancelled then Cause.cancelled
      else if exhausted && decision.willRetry then Cause.runBudget
      else if decision.budgetSpent then Cause.budget
      else Cause.attempts
    .inl (.failed cause, s)

def attemptTurn (s : Recovery σ Lease) : (Ended Result Err × Recovery σ Lease) ⊕ Recovery σ Lease :=
  let forced := runner.forcesErase s.attempt
  match leaseAttempt runner forced s.st with
  | (.timedOut, st) => .inl (.failed .deviceTimeout, { s with log := s.log ++ [{ forcedErase := forced }], st })
  | (.faulted (.crash crash), st) => onCrash runner forced none crash { s with st }
  | (.faulted fault, st) => .inl (.raised fault, { s with log := s.log ++ [{ forcedErase := forced }], st })
  | (.leased lz, st) =>
    let leased := world.time st
    let s := endRecovery world { s with st }
    match runner.runOnLease lz s.st with
    | (.ok result, st) =>
      .inl (.returned result, { s with log := s.log ++ [{ forcedErase := forced, leased := some leased }], st })
    | (.error (.crash crash), st) => onCrash runner forced (some (lz, leased)) crash { s with st }
    | (.error fault, st) =>
      .inl (.raised fault, { s with log := s.log ++ [{ forcedErase := forced, leased := some leased }], st })

/-- The attempts that the range still holds. -/
def attempts : Nat → Recovery σ Lease → Ended Result Err × Recovery σ Lease
  | 0, s => (.failed .attempts, s)
  | remaining + 1, s =>
    match attemptTurn runner s with
    | .inl ended => ended
    | .inr next => attempts remaining next

/-- How a scenario ended and when, what its recovery left, and the cause it gave the run up for. -/
structure Outcome (σ Lease Result Err : Type) where
  ended : Ended Result Err
  endedAt : ℚ
  recovery : Recovery σ Lease
  gaveUp : Option GiveUpCause := none

def markGivenUp (world : World σ) (cause : GiveUpCause) (s : Recovery σ Lease) : Recovery σ Lease :=
  { s with st := world.setShared ((world.shared s.st).markGivenUp cause) s.st }

/-- After the loop: the rest of the recovery is billed, and two of the causes give the run up. -/
def finish (world : World σ) (ended : Ended Result Err) (s : Recovery σ Lease) : Outcome σ Lease Result Err :=
  let endedAt := world.time s.st
  let s := endRecovery world s
  let gaveUp := match ended with
    | .failed .deviceTimeout => some GiveUpCause.devicePreparation
    | .failed .runBudget => some (GiveUpCause.runBudget (world.shared s.st).budget)
    | _ => none
  match gaveUp with
  | none => { ended, endedAt, recovery := s }
  | some cause => { ended, endedAt, recovery := markGivenUp world cause s, gaveUp }

/-- `run_one`. -/
def runOne (st : σ) : Outcome σ Lease Result Err :=
  let budget : CrashRecoveryBudget := ⟨runner.crashRetries, runner.crashRecoveryBudget, none⟩
  match runner.preflight st with
  | (some reason, st) => { ended := .refused reason, endedAt := world.time st, recovery := { budget, st } }
  | (none, st) =>
    match (world.shared st).givenUpCause with
    | some cause => { ended := .neverLeased cause, endedAt := world.time st, recovery := { budget, st } }
    | none =>
      match runner.alertGuard st with
      | (some reason, st) => { ended := .refused reason, endedAt := world.time st, recovery := { budget, st } }
      | (none, st) =>
        let (ended, s) := attempts runner budget.totalAttempts { budget, st }
        finish world ended s

end Attempts

end Bajutsu.Runner.CrashRecovery
