import Bajutsu.Scenarios.ExpandTargets

/-!
# The targets of whole scenarios

The phases of the scenarios are expanded one after the other, on one counter of group ids.
-/

namespace Bajutsu.Scenarios

open PyValue Fuelled

variable {M : Models} {R : Resolver M} {maxDepth : Int}

/-- Each list of steps becomes another, stamped with what is declared in it alone. -/
inductive StampedPhases (R : Resolver M) : List (List (Step M)) → List (List (Step M)) → List Nat → Prop
  | nil : StampedPhases R [] [] []
  | cons {steps out phases outs ids ids'} (hSteps : Stamped R R.start [] none steps out ids)
      (hRest : StampedPhases R phases outs ids') : StampedPhases R (steps :: phases) (out :: outs) (ids ++ ids')

/-! ## One phase after the other -/

section Phases

variable {f : List (Step M) → Run (List (Step M))} {scenario expanded : Scenario M} {count count' : Nat}

theorem each_rules {rules rules' : List (CleanupRule M)}
    (h : Each (CleanupRule.expandWith f) count rules rules' count') :
    Each f count (rules.map CleanupRule.steps) (rules'.map CleanupRule.steps) count' := by
  induction h with
  | nil => exact .nil _
  | cons hRule _ ih =>
    obtain ⟨steps, mid, hSteps, hLast⟩ := returns_bind hRule
    obtain ⟨rfl, rfl⟩ := returns_pure hLast
    exact .cons hSteps ih

theorem each_entries {entries entries' : List (InterruptEntry M)}
    (h : Each (InterruptEntry.expandWith f) count entries entries' count') :
    Each f count (entries.filterMap InterruptEntry.steps?) (entries'.filterMap InterruptEntry.steps?) count' := by
  induction h with
  | nil => exact .nil _
  | @cons _ entry _ _ _ _ _ hEntry _ ih =>
    cases entry with
    | screen condition steps target =>
      obtain ⟨steps', mid, hSteps, hLast⟩ := returns_bind hEntry
      obtain ⟨rfl, rfl⟩ := returns_pure hLast
      exact .cons hSteps ih
    | stepless entry =>
      obtain ⟨rfl, rfl⟩ := returns_pure hEntry
      exact ih

theorem each_expandWith (h : Returns (scenario.expandWith f) count expanded count') :
    Each f count scenario.stepPhases expanded.stepPhases count' := by
  obtain ⟨steps, _, hSteps, hFrom⟩ := returns_bind h
  obtain ⟨setup, _, hSetup, hAfter⟩ := returns_bind hFrom
  obtain ⟨cleanup, _, hCleanup, hThen⟩ := returns_bind hAfter
  obtain ⟨interrupts, _, hInterrupts, hLast⟩ := returns_bind hThen
  obtain ⟨rfl, rfl⟩ := returns_pure hLast
  exact .cons hSteps (.cons hSetup
    ((each_rules (each_of_mapM hCleanup)).append (each_entries (each_of_mapM hInterrupts))))

theorem raises_expandWith {refusal : Refusal} (h : Raises (scenario.expandWith f) count refusal) :
    ∃ steps ∈ scenario.stepPhases, ∃ mid, Raises (f steps) mid refusal := by
  obtain hSteps | ⟨steps, _, -, hFrom⟩ := raises_bind h
  · exact ⟨_, steps_mem_phases scenario, _, hSteps⟩
  obtain hSetup | ⟨setup, _, -, hAfter⟩ := raises_bind hFrom
  · exact ⟨_, setup_mem_phases scenario, _, hSetup⟩
  obtain hCleanup | ⟨cleanup, _, -, hThen⟩ := raises_bind hAfter
  · obtain ⟨rule, hMem, mid, hRule⟩ := raises_mapM hCleanup
    obtain hSteps | ⟨steps, _, -, hDone⟩ := raises_bind hRule
    · exact ⟨_, rule_mem_phases hMem, mid, hSteps⟩
    · exact absurd hDone not_raises_pure
  obtain hInterrupts | ⟨interrupts, _, -, hDone⟩ := raises_bind hThen
  · obtain ⟨entry, hMem, mid, hEntry⟩ := raises_mapM hInterrupts
    cases entry with
    | screen condition steps target =>
      obtain hSteps | ⟨steps, _, -, hDone⟩ := raises_bind hEntry
      · exact ⟨_, screen_mem_phases hMem, mid, hSteps⟩
      · exact absurd hDone not_raises_pure
    | stepless entry => exact absurd hEntry not_raises_pure
  · exact absurd hDone not_raises_pure

end Phases

/-! ## Whole scenarios -/

section Scenarios

variable {checks : Scenario M → Except Refusal Unit} {fuel count count' : Nat} {scenarios out : List (Scenario M)}

theorem inContext_outset (R : Resolver M) : InContext [] none R.outset := ⟨reached_nil, rfl, rfl⟩

theorem each_phases (h : Each (expandScenario R maxDepth checks fuel) count scenarios out count') :
    Each (expandSteps R maxDepth fuel) count (scenarios.flatMap Scenario.stepPhases) (out.flatMap Scenario.stepPhases)
      count' := by
  induction h with
  | nil => exact .nil _
  | cons hScenario _ ih => exact (each_expandWith (expandScenario_expandWith hScenario)).append ih

theorem stampedPhases_of_each {phases outs : List (List (Step M))}
    (h : Each (expandSteps R maxDepth fuel) count phases outs count') :
    ∃ ids, StampedPhases R phases outs ids ∧ Taken count ids count' := by
  induction h with
  | nil => exact ⟨[], .nil, taken_nil _⟩
  | cons hSteps _ ih =>
    obtain ⟨ids', hRest, hTaken'⟩ := ih
    obtain ⟨ids, hStamped, hTaken, -⟩ := expand_stamps fuel [] none R.outset _ _ _ _ (inContext_outset R) hSteps
    exact ⟨ids ++ ids', .cons hStamped hRest, hTaken.append hTaken'⟩

theorem expandComponents_stamps (h : Returns (expandComponents R maxDepth checks fuel scenarios) count out count') :
    ∃ ids, StampedPhases R (scenarios.flatMap Scenario.stepPhases) (out.flatMap Scenario.stepPhases) ids ∧ ids.Nodup := by
  obtain ⟨ids, hPhases, hIds, -⟩ := stampedPhases_of_each (each_phases (each_of_mapM h))
  refine ⟨ids, hPhases, ?_⟩
  rw [hIds]
  exact List.nodup_range'

theorem StampedPhases.agrees {phases outs : List (List (Step M))} {ids : List Nat} (h : StampedPhases R phases outs ids)
    {steps : List (Step M)} (hMem : steps ∈ phases) {scope : R.Scope} {chain : List Frame} {st : Step M}
    (hOccurs : Occurs R R.start [] steps scope chain st) : Agrees chain st := by
  induction h with
  | nil => cases hMem
  | cons hSteps _ ih =>
    obtain rfl | hMem := List.mem_cons.mp hMem
    · exact hSteps.agrees hOccurs
    · exact ih hMem

theorem expandComponents_refuses (R : Resolver M) (maxDepth : Int) (checks : Scenario M → Except Refusal Unit)
    {scenario : Scenario M} (hScenario : scenario ∈ scenarios) {steps : List (Step M)} (hSteps : steps ∈ scenario.stepPhases)
    {scope : R.Scope} {chain : List Frame} {st : Step M} (hOccurs : Occurs R R.start [] steps scope chain st)
    {own caller : String} (hConflict : Conflict chain st own caller) :
    ∃ enough, ∀ fuel, enough ≤ fuel → ∀ count, ∃ refusal,
      Raises (expandComponents R maxDepth checks fuel scenarios) count refusal := by
  obtain ⟨enough, hHalts⟩ := expandComponents_halts R maxDepth checks scenarios
  refine ⟨enough, fun fuel hFuel count => ?_⟩
  apply raises_of_halts (hHalts fuel hFuel)
  intro out count' hReturns
  obtain ⟨ids, hPhases, -⟩ := expandComponents_stamps hReturns
  exact hPhases.agrees (List.mem_flatMap.mpr ⟨scenario, hScenario, hSteps⟩) hOccurs own caller hConflict

theorem expandComponents_blames {path : List Link} {own caller : String}
    (h : Raises (expandComponents R maxDepth checks fuel scenarios) count (.targetConflict path own caller)) :
    (∃ scenario ∈ scenarios, ∃ steps ∈ scenario.stepPhases, Blamed R R.start [] steps own caller) ∨
      ∃ scenario, checks scenario = .error (.targetConflict path own caller) := by
  obtain ⟨scenario, hMem, mid, hScenario⟩ := raises_mapM h
  obtain hPhases | ⟨expanded, _, hExpanded, hGrouping⟩ := raises_bind hScenario
  · obtain ⟨steps, hSteps, _, hRaises⟩ := raises_expandWith hPhases
    exact .inl ⟨scenario, hMem, steps, hSteps, expand_blames fuel [] R.outset steps _ _ _ _ reached_nil hRaises⟩
  · obtain hGroups | ⟨grouped, _, -, hChecking⟩ := raises_bind hGrouping
    · have hRefused := raises_settle hGroups
      rw [expandTargetGroups_plain (expandWith_plain hExpanded)] at hRefused
      cases hRefused
    · obtain hChecks | ⟨⟨⟩, _, -, hDone⟩ := raises_bind hChecking
      · exact .inr ⟨grouped, raises_settle hChecks⟩
      · exact absurd hDone not_raises_pure

end Scenarios

/-- Whatever expansion returns is stamped by where the targets are declared, each `group` with an id of its own; two
targets that meet at a step are refused, and no others are. -/
theorem targets_lexical (R : Resolver M) (maxDepth : Int) (checks : Scenario M → Except Refusal Unit)
    (scenarios : List (Scenario M)) :
    (∀ fuel count out count', Returns (expandComponents R maxDepth checks fuel scenarios) count out count' →
      ∃ ids, StampedPhases R (scenarios.flatMap Scenario.stepPhases) (out.flatMap Scenario.stepPhases) ids ∧ ids.Nodup) ∧
    (∀ scenario ∈ scenarios, ∀ steps ∈ scenario.stepPhases, ∀ scope chain st own caller,
      Occurs R R.start [] steps scope chain st → Conflict chain st own caller →
        ∃ enough, ∀ fuel, enough ≤ fuel → ∀ count, ∃ refusal,
          Raises (expandComponents R maxDepth checks fuel scenarios) count refusal) ∧
    ∀ fuel count path own caller,
      Raises (expandComponents R maxDepth checks fuel scenarios) count (.targetConflict path own caller) →
        (∃ scenario ∈ scenarios, ∃ steps ∈ scenario.stepPhases, Blamed R R.start [] steps own caller) ∨
          ∃ scenario, checks scenario = .error (.targetConflict path own caller) := by
  refine ⟨?_, ?_, ?_⟩
  · intro fuel count out count' h
    exact expandComponents_stamps h
  · intro scenario hScenario steps hSteps scope chain st own caller hOccurs hConflict
    exact expandComponents_refuses R maxDepth checks hScenario hSteps hOccurs hConflict
  · intro fuel count path own caller h
    exact expandComponents_blames h

/-! ## A component that moves the primary target -/

def moving : Step plainModels := plainStep (.leaf .setPrimaryTarget (.dict [("target", .str "new")]))

def tapping : Step plainModels := plainStep (.leaf .tap (.dict [("id", .str "a")]))

/-- The component taps, and then moves the primary target. -/
def switching : Resolver plainModels where
  Scope := Unit
  start := ()
  resolve := fun _ _ => .ok ⟨[], [tapping, moving]⟩
  scopeFor := fun _ _ => ()

def switched : Scenario plainModels where
  steps := [{ plainStep (.use "switch" []) with target := some "old" }]
  setup := []
  cleanup := []
  interrupts := []
  rest := .null

/-- The caller's target reaches the step that moves the primary target, which is not stamped with it. -/
theorem moving_unstamped :
    ∃ out count, Returns (expandComponents switching 25 (fun _ => .ok ()) 2 [switched]) 0 out count ∧
      (out.flatMap fun expanded => expanded.steps.map Step.target) = [some "old", none] ∧
      Occurs switching () [] switched.steps () [.call (some "old")] moving ∧ moving.target = none ∧
      Reaches [.call (some "old")] "old" := by
  refine ⟨_, _, rfl, rfl, ?_, rfl, ?_⟩
  · refine .inside (List.mem_singleton.mpr rfl) (.use rfl rfl) (.here ?_)
    exact List.mem_cons_of_mem _ (List.mem_singleton.mpr rfl)
  · exact ⟨[], .call (some "old"), [], rfl, rfl, nofun, trivial⟩

theorem targets_lexical_switched :
    ∃ ids out count, Returns (expandComponents switching 25 (fun _ => .ok ()) 2 [switched]) 0 out count ∧
      StampedPhases switching switched.stepPhases (out.flatMap Scenario.stepPhases) ids ∧ ids.Nodup := by
  obtain ⟨ids, hPhases, hNodup⟩ := (targets_lexical switching 25 (fun _ => .ok ()) [switched]).1 2 0 _ _ rfl
  exact ⟨ids, _, _, rfl, hPhases, hNodup⟩

end Bajutsu.Scenarios
