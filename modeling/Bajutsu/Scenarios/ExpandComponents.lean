import Bajutsu.Scenarios.Expand

/-!
# Expansion of scenarios

The steps of every phase of a scenario are expanded, then the target groups that a component may have brought, and
the scenario is checked again.
-/

namespace Bajutsu.Scenarios

open PyValue Fuelled

variable {M : Models}

/-! ## Target groups -/

namespace TargetGroups

mutual
/-- `_expand_steps`; `groupTarget` is the target of the group that the steps are in. -/
def expandSteps (groupTarget : Option String) (insideWeb : Bool) : List (Step M) → Except Refusal (List (Step M))
  | [] => .ok []
  | st :: steps => do
    let front ← expandStep groupTarget insideWeb st
    let rest ← expandSteps groupTarget insideWeb steps
    return front ++ rest

def expandStep (groupTarget : Option String) (insideWeb : Bool) : Step M → Except Refusal (List (Step M))
  | ⟨.steps steps, _, _, _, _, target, _, _⟩ =>
    if insideWeb then .error .targetGroupInBlock else expandSteps target false steps
  | ⟨action, capture, extract, name, from_, target, reportGroup, reportGroupId⟩ =>
    let st : Step M := ⟨action, capture, extract, name, from_, groupTarget <|> target, reportGroup, reportGroupId⟩
    if groupTarget.isSome && st.isSetPrimaryTarget then .error (.setPrimaryTargetInGroup [.step name])
    else do
      let action ← expandNested insideWeb action
      return [{ st with action }]

/-- `_expand_nested`. -/
def expandNested (insideWeb : Bool) : Action M (Step M) → Except Refusal (Action M (Step M))
  | .if_ condition then_ else_ => do
    let then_ ← expandSteps none insideWeb then_
    let else_ ← expandElse insideWeb else_
    return .if_ condition then_ else_
  | .forEach sel as_ steps => do
    let steps ← expandSteps none insideWeb steps
    return .forEach sel as_ steps
  | .web within steps => do
    let steps ← expandSteps none true steps
    return .web within steps
  | .app bundleId steps => do
    let steps ← expandSteps none true steps
    return .app bundleId steps
  | action => .ok action

def expandElse (insideWeb : Bool) : Option (List (Step M)) → Except Refusal (Option (List (Step M)))
  | none => .ok none
  | some steps => some <$> expandSteps none insideWeb steps
end

end TargetGroups

/-! ## Scenarios -/

inductive Outcome where
  | always
  | success
  | failure

structure CleanupRule (M : Models) where
  on : Outcome
  steps : List (Step M)

/-- An entry for a screen has steps; one for a system prompt, or for tips, has none. -/
inductive InterruptEntry (M : Models) where
  | screen (condition : M.Condition) (steps : List (Step M)) (target : Option String)
  | stepless (entry : Val)

/-- `rest` is what no expansion reads. -/
structure Scenario (M : Models) where
  steps : List (Step M)
  setup : List (Step M)
  cleanup : List (CleanupRule M)
  interrupts : List (InterruptEntry M)
  rest : Val

def InterruptEntry.steps? : InterruptEntry M → Option (List (Step M))
  | .screen _ steps _ => some steps
  | .stepless _ => none

/-- `_scenario_step_phases`. -/
def Scenario.stepPhases (scenario : Scenario M) : List (List (Step M)) :=
  [scenario.steps, scenario.setup] ++ scenario.cleanup.map CleanupRule.steps ++
    scenario.interrupts.filterMap InterruptEntry.steps?

section Phases

variable {m : Type → Type} [Monad m]

def CleanupRule.expandWith (f : List (Step M) → m (List (Step M))) (rule : CleanupRule M) : m (CleanupRule M) := do
  let steps ← f rule.steps
  return { rule with steps }

def InterruptEntry.expandWith (f : List (Step M) → m (List (Step M))) : InterruptEntry M → m (InterruptEntry M)
  | .screen condition steps target => do
    let steps ← f steps
    return .screen condition steps target
  | .stepless entry => return .stepless entry

/-- The phases of a scenario, one after the other. -/
def Scenario.expandWith (f : List (Step M) → m (List (Step M))) (scenario : Scenario M) : m (Scenario M) := do
  let steps ← f scenario.steps
  let setup ← f scenario.setup
  let cleanup ← scenario.cleanup.mapM (CleanupRule.expandWith f)
  let interrupts ← scenario.interrupts.mapM (InterruptEntry.expandWith f)
  return { scenario with steps, setup, cleanup, interrupts }

end Phases

/-- `_expand_target_groups`. -/
def expandTargetGroups (scenario : Scenario M) : Except Refusal (Scenario M) :=
  scenario.expandWith (TargetGroups.expandSteps none false)

section Components

variable (R : Resolver M) (maxDepth : Int) (checks : Scenario M → Except Refusal Unit)

def expandScenario (fuel : Nat) (scenario : Scenario M) : Run (Scenario M) := do
  let expanded ← scenario.expandWith (expandSteps R maxDepth fuel)
  let expanded ← settle (expandTargetGroups expanded)
  settle (checks expanded)
  return expanded

/-- `expand_components`; `checks` are those of a scenario that follow its expansion. -/
def expandComponents (fuel : Nat) (scenarios : List (Scenario M)) : Run (List (Scenario M)) :=
  scenarios.mapM (expandScenario R maxDepth checks fuel)

end Components

end Bajutsu.Scenarios
