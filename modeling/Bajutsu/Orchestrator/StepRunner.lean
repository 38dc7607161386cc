import Bajutsu.Lib.Transition
import Bajutsu.Orchestrator.TargetRoster

/-!
# Routing the steps of a scenario

Every phase builds its runners over the targets that are live. A step that resolves a target is routed to that
target's runner, a later member being brought up at its first `foreground`; a step without one stays on the runner
whose step it is nested in. The steps that a block or an interrupt's recovery runs are nested.
-/

namespace Bajutsu.Orchestrator

open PyValue Transition

variable {E R : Type}

structure Step where
  action : Action
  resolvedTarget : Option String

/-- A step under way: the runner it is on, and the entries its interrupt guard polls. -/
structure Frame (E : Type) where
  runner : String
  polled : List (Interrupt E)

/-- What a scenario is run with: the runtimes its targets start with, the primary's among them, the members that
start later, and each target's own interrupts. -/
structure Config (E R : Type) where
  started : List (String × R)
  primaryTarget : String
  later : List String
  screens : List (Interrupt E)
  pinned : String → List (Interrupt E)
  primary_started : primaryTarget ∈ started.map Prod.fst
  later_apart : ∀ name ∈ later, name ∉ started.map Prod.fst

/-- A scenario under way in one of its phases. -/
structure State (E R : Type) where
  roster : TargetRoster E R
  byTarget : List String
  frames : List (Frame E)

namespace State

variable (cfg : Config E R)

def start : State E R where
  roster := ⟨cfg.primaryTarget, cfg.screens, cfg.later.map fun name => (name, .notInstalled), []⟩
  byTarget := cfg.started.map Prod.fst
  frames := []

/-- The runner whose steps are being run: the one of the innermost step, the primary's at the top. -/
def runner (st : State E R) : String :=
  match st.frames with
  | [] => cfg.primaryTarget
  | frame :: _ => frame.runner

def bringUp (st : State E R) (target : String) (runtime : R) : State E R where
  roster := ({ st.roster with runtimes := PyValue.set st.roster.runtimes target runtime }).mark target .running
  byTarget := st.byTarget ++ [target]
  frames := st.frames

end State

/-- Where a step goes: nowhere, for a reason that fails it; nowhere, and the run ends; or to a runner. -/
inductive Route (E R : Type) where
  | refused (problem : Problem)
  | aborted
  | runs (runner : String) (st : State E R)

/-- The runner of a target, which has one. -/
def dispatch (st : State E R) (target : String) : Route E R :=
  if target ∈ st.byTarget then .runs target st else .aborted

/-- `_route`; `activation` is what `activate` does if the step brings its target up. -/
def route (cfg : Config E R) (st : State E R) (step : Step) (activation : Answer R) : Route E R :=
  match step.resolvedTarget with
  | none => .runs (st.runner cfg) st
  | some target =>
    match st.roster.unavailable target step.action with
    | some problem => .refused problem
    | none =>
      if target ∈ st.byTarget then .runs target st
      else if step.action.isInstallApp then .runs (st.runner cfg) st
      else if st.roster.statusOf target = .installed then
        match activation with
        | .unwired => .aborted
        | .raised cause => .refused (.couldNotStart target cause)
        | .crashed => .aborted
        | .returned runtime => dispatch (st.bringUp target runtime) target
      else dispatch st target

inductive Label (R : Type) where
  | begin (step : Step) (activation : Answer R) (installation : Answer (List String))
  | poll
  | finish
  | nextPhase

/-- A lifecycle step is over at once; any other one is under way until it finishes. -/
def perform (cfg : Config E R) (st : State E R) (runner : String) (step : Step)
    (installation : Answer (List String)) : Option (State E R) :=
  match step.action with
  | .installApp member _ =>
    match st.roster.installMember member installation with
    | (.aborted, _) => none
    | (_, roster) => some { st with roster }
  | .setPrimaryTarget target => some { st with roster := (st.roster.movePrimary target).2 }
  | _ => some { st with frames := ⟨runner, st.roster.interruptsFor runner (cfg.pinned runner)⟩ :: st.frames }

/-- `none` where the run ends, or the label is not possible. -/
def next (cfg : Config E R) (st : State E R) : Label R → Option (State E R)
  | .begin step activation installation =>
    match route cfg st step activation with
    | .refused _ => some st
    | .aborted => none
    | .runs runner st => perform cfg st runner step installation
  | .poll => if st.frames = [] then none else some st
  | .finish =>
    match st.frames with
    | [] => none
    | _ :: frames => some { st with frames }
  | .nextPhase =>
    if st.frames = [] then some { st with byTarget := (st.roster.live cfg.started).map Prod.fst } else none

/-- What the loader admits: `setPrimaryTarget` among the top-level steps only. -/
def Label.Loaded (st : State E R) : Label R → Prop
  | .begin ⟨.setPrimaryTarget _, _⟩ _ _ => st.frames = []
  | _ => True

/-- Every install that succeeds reports each other member whose app shares the identifier. -/
def Label.Reports (shares : String → String → Prop) : Label R → Prop
  | .begin ⟨.installApp member _, _⟩ _ (.returned others) => ∀ other, shares member other → other ∈ others
  | _ => True

end Bajutsu.Orchestrator
