import Bajutsu.Lib.Effect
import Bajutsu.Orchestrator.Cleanup
import Mathlib.Data.List.Infix

/-!
# Steps behind which the app crashed

Every handler records the outcome of its step, and a driver is asked whether the app has crashed behind a failed one,
within the bounds of three latches that the phases of a scenario share. The order in which drivers were asked and outcomes
were recorded is kept as a log.
-/

namespace Bajutsu.Orchestrator.AppCrash

open Cleanup (CancelSource CleanupRule)
open Effect

/-! ## Steps -/

/-- The steps without steps of their own. -/
inductive Leaf where
  | tap | tapPoint | doubleTap | longPress | type | select | clear | delete | copy_ | selectOption | selectPhotos
  | setPickerValue | swipe | drag | scroll | back | navigate | pinch | rotate | wait | sleep | assert_ | relaunch
  | setLocation | push | http | totp | generate | eval_ | email | clearKeychain | clearClipboard | setClipboard | setMocks
  | background | foreground | overrideStatusBar | clearStatusBar | handleSystemAlert | manual
  deriving DecidableEq

inductive Action where
  | leaf (kind : Leaf)
  | installApp
  | setPrimaryTarget
  | ifElse
  | forEach
  | web
  | app
  deriving DecidableEq

def Leaf.name : Leaf → String
  | tap => "tap" | tapPoint => "tap_point" | doubleTap => "double_tap" | longPress => "long_press" | type => "type"
  | select => "select" | clear => "clear" | delete => "delete" | copy_ => "copy_" | selectOption => "select_option"
  | selectPhotos => "select_photos" | setPickerValue => "set_picker_value" | swipe => "swipe" | drag => "drag"
  | scroll => "scroll" | back => "back" | navigate => "navigate" | pinch => "pinch" | rotate => "rotate" | wait => "wait"
  | sleep => "sleep" | assert_ => "assert_" | relaunch => "relaunch" | setLocation => "set_location" | push => "push"
  | http => "http" | totp => "totp" | generate => "generate" | eval_ => "eval_" | email => "email"
  | clearKeychain => "clear_keychain" | clearClipboard => "clear_clipboard" | setClipboard => "set_clipboard"
  | setMocks => "set_mocks" | background => "background" | foreground => "foreground"
  | overrideStatusBar => "override_status_bar" | clearStatusBar => "clear_status_bar"
  | handleSystemAlert => "handle_system_alert" | manual => "manual"

def Action.name : Action → String
  | leaf kind => kind.name
  | installApp => "install_app"
  | setPrimaryTarget => "set_primary_target"
  | ifElse => "if_"
  | forEach => "for_each"
  | web => "web"
  | app => "app"

/-- `OBSERVES_APP`. -/
def observesApp : List Leaf :=
  [.tap, .doubleTap, .longPress, .type, .select, .clear, .delete, .copy_, .selectOption, .setPickerValue, .swipe, .drag,
    .scroll, .pinch, .rotate, .wait, .assert_]

def Action.observes : Action → Bool
  | leaf kind => kind ∈ observesApp
  | _ => false

/-- `RELAUNCH`. -/
def relaunch : Action := .leaf .relaunch

/-- A step, with the rest of what is written in it. -/
inductive Step (P : Type) where
  | leaf (kind : Leaf) (written : P)
  | installApp (written : P)
  | setPrimaryTarget (written : P)
  | ifElse (written : P) (thenSteps elseSteps : List (Step P))
  | forEach (written : P) (steps : List (Step P))
  | web (written : P) (steps : List (Step P))
  | app (written : P) (steps : List (Step P))

def Step.action {P : Type} : Step P → Action
  | leaf kind _ => .leaf kind
  | installApp _ => .installApp
  | setPrimaryTarget _ => .setPrimaryTarget
  | ifElse _ _ _ => .ifElse
  | forEach _ _ => .forEach
  | web _ _ => .web
  | app _ _ => .app

def Step.written {P : Type} : Step P → P
  | leaf _ written => written
  | installApp written => written
  | setPrimaryTarget written => written
  | ifElse written _ _ => written
  | forEach written _ => written
  | web written _ => written
  | app written _ => written

/-! ## What the step loop remembers -/

structure AppCrashLatches where
  deliberateTermination : Bool := false
  unconfirmedLaunch : Bool := false
  confirmedSignal : Option String := none

structure StepOutcome where
  index : Nat
  action : Action
  ok : Bool := true
  reason : String := ""
  appCrashed : Bool := false

/-- A driver has been asked for a crash, or an outcome has been recorded of a step that reached a driver or none. -/
inductive Event (D : Type) where
  | probed (driver : D) (answer : Option String)
  | recorded (driver : Option D) (outcome : StepOutcome)

structure LoopState (W D : Type) where
  world : W
  counter : Nat
  appCrash : AppCrashLatches
  log : List (Event D)

inductive Raised where
  | selectorError (text : String)
  | unsupportedAction (text : String)
  | controlChannelError (text : String)
  | runCancelled
  | backendCrashError
  | other (text : String)

/-- The body of a step that an interrupt guard watches: it runs the steps of an entry and goes on with how they ended, or
it ends itself. -/
inductive Body (W P : Type) where
  | settle (result : Except Raised (Bool × String)) (world : W)
  | recover (steps : List (Step P)) (world : W) (resume : Except Raised (Option String) → W → Body W P)

/-- What is asked outside of the step loop. A runner together with the driver that its steps run against is a `D`. -/
structure Outside (W D P : Type) where
  cancelled : CancelSource → Effect W Raised Bool
  now : Effect W Raised ℚ
  teardownSeconds : ℚ
  /-- `_route`: what a step runs against, or why it cannot run. -/
  route : P → D → Effect W Raised (Except String D)
  pauseBefore : P → D → Effect W Raised Unit
  pauseAfterFailure : String → Effect W Raised Unit
  condition : P → D → Effect W Raised Bool
  /-- The identifier of each element that a loop matches, or what is said of one without. -/
  matched : P → D → Effect W Raised (List (Except String String))
  bindLoop : P → String → Effect W Raised Unit
  /-- The web view that a block runs against, or why there is none. -/
  enterWeb : P → D → Effect W Raised (Except String D)
  enterApp : P → D → Effect W Raised Unit
  leaveApp : D → Effect W Raised Unit
  lifecycle : Action → P → D → Effect W Raised (Option String)
  act : Leaf → P → D → W → Body W P
  /-- The body of a step of a recovery, which no guard watches. -/
  actInRecovery : Leaf → P → D → Effect W Raised (Bool × String)
  /-- The note of the interruptions that no rule named, where there are some. -/
  drainInterruptions : D → Effect W Raised (Option String)
  /-- A driver that is not capable of it has none. -/
  appCrashSignal : D → Option (Effect W Raised (Option String))
  captureAppCrash : Effect W Raised Unit
  expect : Effect W Raised (Option String)

abbrev Run (W D α : Type) : Type := Effect (LoopState W D) Raised α

def contains (text part : String) : Bool := decide (part.toList <:+: text.toList)

def withCrashNote (reason signal : String) : String :=
  if reason = "" then "the app under test crashed: " ++ signal
  else reason ++ " — " ++ ("the app under test crashed: " ++ signal)

/-- What a step's failure is to the steps around it. -/
def StepOutcome.failure (o : StepOutcome) : Option String :=
  if o.ok then none else some ("step " ++ toString o.index ++ " (" ++ o.action.name ++ "): " ++ o.reason)

/-- What the failure of the steps in a block is to the block. -/
def settled (failure : Option String) : Bool × String := (failure.isNone, failure.getD "")

section Runner

variable {W D P : Type} (env : Outside W D P)

def ask {α : Type} (x : Effect W Raised α) : Run W D α := fun s =>
  match x s.world with
  | (result, world) => (result, { s with world })

def take : Run W D Nat := fun s => (.ok s.counter, { s with counter := s.counter + 1 })

def record (driver : Option D) (o : StepOutcome) : Run W D Unit :=
  modify fun s => { s with log := s.log ++ [.recorded driver o] }

def setLatches (f : AppCrashLatches → AppCrashLatches) : Run W D Unit :=
  modify fun s => { s with appCrash := f s.appCrash }

/-! ## Classifying an outcome -/

def trackLaunch (o : StepOutcome) : Run W D Unit :=
  if o.action = relaunch then setLatches fun latches => { latches with unconfirmedLaunch := true }
  else if o.action.observes then setLatches fun latches => { latches with unconfirmedLaunch := false }
  else pure ()

/-- An answer that raises is none, unless the backend is gone. -/
def appCrashAnswer (driver : D) : Run W D (Option String) :=
  match env.appCrashSignal driver with
  | none => pure none
  | some signal => catching (ask signal) fun | .backendCrashError => none | _ => some (pure none)

def probeAppCrash (driver : D) : Run W D (Option String) := do
  let answer ← appCrashAnswer env driver
  modify fun s => { s with log := s.log ++ [.probed driver answer] }
  return answer

def confirmCrash (o : StepOutcome) (signal : String) : Run W D StepOutcome := do
  setLatches fun latches => { latches with confirmedSignal := some signal }
  ask env.captureAppCrash
  return { o with reason := withCrashNote o.reason signal, appCrashed := true }

def classifyFailure (driver : D) (o : StepOutcome) (latches : AppCrashLatches) : Run W D StepOutcome :=
  if o.action = relaunch then do
    setLatches fun latches => { latches with deliberateTermination := true }
    return o
  else
    match latches.confirmedSignal with
    | some signal => pure (if contains o.reason signal then o else { o with reason := withCrashNote o.reason signal })
    | none =>
      if latches.deliberateTermination || latches.unconfirmedLaunch then pure o
      else do
        match ← probeAppCrash env driver with
        | none => return o
        | some signal => confirmCrash env o signal

def classifyAppCrash (driver : D) (o : StepOutcome) : Run W D StepOutcome :=
  if o.ok then do
    trackLaunch o
    return o
  else do classifyFailure env driver o (← read).appCrash

def finishOutcome (driver : D) (o : StepOutcome) : Run W D StepOutcome := do
  let o ← classifyAppCrash env driver o
  record (some driver) o
  return o

def drainStepInterruptions (driver : D) (o : StepOutcome) : Run W D StepOutcome := do
  match ← ask (env.drainInterruptions driver) with
  | none => return o
  | some note => return { o with ok := false, reason := if o.reason = "" then note else o.reason ++ " — " ++ note }

/-! ## The handlers -/

def failUnrouted (step : Step P) (reason : String) : Run W D (Option String) := do
  let index ← take
  record none { index, action := step.action, ok := false, reason }
  return some reason

/-- The end of `_handle_if`, `_handle_for_each` and `_handle_web`. -/
def finishBlock (driver : D) (o : StepOutcome) : Run W D (Option String) := do
  let o ← drainStepInterruptions env driver o
  return (← finishOutcome env driver o).failure

def handleIf (index : Nat) (written : P) (driver : D) (thenSteps elseSteps : D → Run W D (Option String)) :
    Run W D (Option String) := do
  let holds ← ask (env.condition written driver)
  let (ok, reason) := settled (← (if holds then thenSteps else elseSteps) driver)
  finishBlock env driver { index, action := .ifElse, ok, reason }

def runForEach (written : P) (driver : D) (steps : D → Run W D (Option String)) :
    List (Except String String) → Run W D (Bool × String)
  | [] => pure (true, "")
  | .error problem :: _ => pure (false, problem)
  | .ok ident :: rest => do
    ask (env.bindLoop written ident)
    match ← steps driver with
    | some failure => return (false, failure)
    | none => runForEach written driver steps rest

def handleForEach (index : Nat) (written : P) (driver : D) (steps : D → Run W D (Option String)) :
    Run W D (Option String) := do
  let (ok, reason) ← runForEach env written driver steps (← ask (env.matched written driver))
  finishBlock env driver { index, action := .forEach, ok, reason }

def runWeb (written : P) (driver : D) (steps : D → Run W D (Option String)) : Run W D (Bool × String) := do
  match ← ask (env.enterWeb written driver) with
  | .error reason => return (false, reason)
  | .ok webDriver => return settled (← steps webDriver)

def handleWeb (index : Nat) (written : P) (driver : D) (steps : D → Run W D (Option String)) :
    Run W D (Option String) := do
  let (ok, reason) ← catching (runWeb env written driver steps) fun
    | .selectorError text => some (pure (false, text))
    | _ => none
  finishBlock env driver { index, action := .web, ok, reason }

/-- Whatever the steps raise, the app is left, and what leaving it raises is dropped. -/
def leaving (driver : D) (steps : D → Run W D (Option String)) : Run W D (Option String) := do
  match ← attempt (steps driver) with
  | .ok failure => return failure
  | .error e => do
    let _ ← attempt (ask (env.leaveApp driver))
    raise e

def runApp (written : P) (driver : D) (steps : D → Run W D (Option String)) : Run W D (Bool × String) := do
  ask (env.enterApp written driver)
  let failure ← leaving env driver steps
  ask (env.leaveApp driver)
  return settled failure

/-- The outcome is recorded without being classified. -/
def handleApp (index : Nat) (written : P) (driver : D) (steps : D → Run W D (Option String)) :
    Run W D (Option String) := do
  let (ok, reason) ← catching (runApp env written driver steps) fun
    | .selectorError text => some (pure (false, text))
    | .unsupportedAction text => some (pure (false, text))
    | _ => none
  let o ← drainStepInterruptions env driver { index, action := .app, ok, reason }
  record (some driver) o
  return o.failure

def handleLifecycle (index : Nat) (action : Action) (written : P) (driver : D) : Run W D (Option String) := do
  let (ok, reason) := settled (← ask (env.lifecycle action written driver))
  return (← finishOutcome env driver { index, action, ok, reason }).failure

/-- What a step's body comes to is decided before its outcome is recorded, its own interruptions included. -/
def handleAction (act : Leaf → P → D → Run W D (Bool × String)) (index : Nat) (kind : Leaf) (written : P) (driver : D) :
    Run W D (Option String) := do
  let (ok, reason) ← act kind written driver
  return (← finishOutcome env driver { index, action := .leaf kind, ok, reason }).failure

/-! ## The step loop -/

section Steps

variable (act : Leaf → P → D → Run W D (Bool × String)) (source : CancelSource)

mutual
def runOne : Step P → D → Run W D (Option String)
  | .leaf kind written, driver => do handleAction env act (← take) kind written driver
  | .installApp written, driver => do handleLifecycle env (← take) .installApp written driver
  | .setPrimaryTarget written, driver => do handleLifecycle env (← take) .setPrimaryTarget written driver
  | .ifElse written thenSteps elseSteps, driver => do
    handleIf env (← take) written driver (fun d => execSteps thenSteps d) (fun d => execSteps elseSteps d)
  | .forEach written steps, driver => do handleForEach env (← take) written driver (fun d => execSteps steps d)
  | .web written steps, driver => do handleWeb env (← take) written driver (fun d => execSteps steps d)
  | .app written steps, driver => do handleApp env (← take) written driver (fun d => execSteps steps d)

def execSteps : List (Step P) → D → Run W D (Option String)
  | [], _ => pure none
  | step :: rest, driver => do
    if ← ask (env.cancelled source) then raise .runCancelled
    match ← ask (env.route step.written driver) with
    | .error reason => failUnrouted step reason
    | .ok stepDriver => do
      ask (env.pauseBefore step.written stepDriver)
      match ← runOne step stepDriver with
      | some failure => do
        ask (env.pauseAfterFailure failure)
        return some failure
      | none => execSteps rest driver
end

end Steps

/-- What the steps of a recovery do themselves to the loop is done in between. -/
def runBody (recover : List (Step P) → D → Run W D (Option String)) (driver : D) : Body W P → Run W D (Bool × String)
  | .settle result world => fun s => (result, { s with world })
  | .recover steps world resume => do
    modify fun s => { s with world }
    let ended ← attempt (recover steps driver)
    let s ← read
    runBody recover driver (resume ended s.world)

def actInRecovery (kind : Leaf) (written : P) (driver : D) : Run W D (Bool × String) :=
  ask (env.actInRecovery kind written driver)

def actGuarded (source : CancelSource) (kind : Leaf) (written : P) (driver : D) : Run W D (Bool × String) := do
  let s ← read
  runBody (execSteps env (actInRecovery env) source) driver (env.act kind written driver s.world)

/-! ## The scenario -/

def runSteps (source : CancelSource) (steps : List (Step P)) (driver : D) : Run W D (Option String) :=
  execSteps env (actGuarded env source) source steps driver

def restartCounter : Run W D Unit := modify fun s => { s with counter := 0 }

def runPhase (steps : List (Step P)) (driver : D) : Run W D (Option String) := do
  restartCounter
  runSteps env .run steps driver

def dispatchRules (source : CancelSource) (bounded : Bool) (verdict : Cleanup.On) (driver : D) :
    List (CleanupRule (Step P)) → Option String → Run W D (Option String)
  | [], failure => pure failure
  | rule :: rules, failure =>
    if rule.selectedBy verdict then do
      match ← attempt (runSteps env source rule.steps driver) with
      | .ok none => dispatchRules source bounded verdict driver rules failure
      | .ok (some reason) => dispatchRules source bounded verdict driver rules (some (Cleanup.compose failure reason))
      | .error .runCancelled => return if bounded then failure else some (Cleanup.cutShort failure)
      | .error e => raise e
    else dispatchRules source bounded verdict driver rules failure

def dispatchCleanup (rules : List (CleanupRule (Step P))) (failure : Option String) (driver : D) :
    Run W D (Option String) := do
  let cancelled ← ask (env.cancelled .run)
  if cancelled || failure.any fun text => Cleanup.cancelledFailure.toList.isPrefixOf text.toList then do
    let time ← ask env.now
    dispatchRules env (.deadline (time + env.teardownSeconds)) true (Cleanup.verdictOf failure) driver rules failure
  else dispatchRules env .run false (Cleanup.verdictOf failure) driver rules failure

structure Scenario (P : Type) where
  setup : List (Step P)
  steps : List (Step P)
  cleanup : List (CleanupRule (Step P))

def runSetup (sc : Scenario P) (driver : D) : Run W D (Option String) :=
  if sc.setup.isEmpty then pure none else do return (← runPhase env sc.setup driver).map ("setup: " ++ ·)

def runToExpect (sc : Scenario P) (driver : D) : Run W D (Option String) := do
  match ← runSetup env sc driver with
  | some failure => return some failure
  | none => do
    match ← runPhase env sc.steps driver with
    | some failure => return some failure
    | none => ask env.expect

/-- `run_scenario`, as far as it runs steps. -/
def runScenario (sc : Scenario P) (driver : D) : Run W D (Option String) := do
  let failure ← catching (runToExpect env sc driver) fun
    | .controlChannelError text => some (pure (some ("control channel: " ++ text)))
    | .unsupportedAction text => some (pure (some ("unsupported: " ++ text)))
    | .runCancelled => some (pure (some Cleanup.cancelledFailure))
    | _ => none
  if sc.cleanup.isEmpty then return failure
  else do
    restartCounter
    dispatchCleanup env sc.cleanup failure driver

end Runner

/-- A scenario about to be run, on a lease whose readiness gate has left the launch unconfirmed or not. -/
def LoopState.start {W D : Type} (world : W) (unconfirmed : Bool) : LoopState W D where
  world
  counter := 0
  appCrash := { unconfirmedLaunch := unconfirmed }
  log := []

end Bajutsu.Orchestrator.AppCrash
