import Bajutsu.Scenarios.ExpandSound

/-!
# Expansion halts

The steps of a body are smaller than their step, and the stack of a component's is longer. Neither goes on for ever:
the code refuses a stack that is longer than it allows.
-/

namespace Bajutsu.Scenarios

open PyValue Fuelled

variable {M : Models} {R : Resolver M} {maxDepth : Int}

/-- With enough fuel, the steps come to their end in every context with this stack and scope. -/
def Ends (R : Resolver M) (maxDepth : Int) (stack : List String) (scope : R.Scope) (steps : List (Step M)) : Prop :=
  ∃ enough, ∀ fuel, enough ≤ fuel → ∀ ctx : Context R.Scope, ctx.stack = stack → ctx.scope = scope →
    Halts (expand R maxDepth fuel ctx steps)

theorem keepStep_halts {stack : List String} {scope : R.Scope} {st : Step M}
    (hBody : ∀ inner, sizeOf inner < sizeOf st → Ends R maxDepth stack scope inner) :
    ∃ enough, ∀ fuel, enough ≤ fuel → ∀ ctx : Context R.Scope, ctx.stack = stack → ctx.scope = scope →
      Halts (keepStep R (expand R maxDepth fuel) ctx st) := by
  have hBodies : ∃ enough, ∀ fuel, enough ≤ fuel → ∀ ctx : Context R.Scope, ctx.stack = stack → ctx.scope = scope →
      Halts (expandBodies (fun steps kind target => expand R maxDepth fuel (ctx.forBody kind target) steps)
        ctx.bodyTarget st.action) := by
    obtain ⟨action, capture, extract, name, from_, target, reportGroup, reportGroupId⟩ := st
    cases action with
    | if_ condition then_ else_ =>
      obtain ⟨enoughThen, hThen⟩ := hBody then_ (by simp; omega)
      cases else_ with
      | none =>
        refine ⟨enoughThen, fun fuel hFuel ctx hStack hScope => ?_⟩
        apply halts_bind (hThen fuel hFuel (ctx.forBody .if_ ctx.bodyTarget) hStack hScope)
        rintro then' - - -
        exact halts_pure _
      | some else_ =>
        obtain ⟨enoughElse, hElse⟩ := hBody else_ (by simp; omega)
        refine ⟨max enoughThen enoughElse, fun fuel hFuel ctx hStack hScope => ?_⟩
        apply halts_bind (hThen fuel (by omega) (ctx.forBody .if_ ctx.bodyTarget) hStack hScope)
        rintro then' - - -
        apply halts_bind (hElse fuel (by omega) (ctx.forBody .if_ ctx.bodyTarget) hStack hScope)
        rintro else' - - -
        exact halts_pure _
    | forEach sel as_ body =>
      obtain ⟨enough, hEnough⟩ := hBody body (by simp; omega)
      refine ⟨enough, fun fuel hFuel ctx hStack hScope => ?_⟩
      apply halts_bind (hEnough fuel hFuel (ctx.forBody .forEach ctx.bodyTarget) hStack hScope)
      rintro body' - - -
      exact halts_pure _
    | web within body =>
      obtain ⟨enough, hEnough⟩ := hBody body (by simp; omega)
      refine ⟨enough, fun fuel hFuel ctx hStack hScope => ?_⟩
      apply halts_bind (hEnough fuel hFuel (ctx.forBody .web none) hStack hScope)
      rintro body' - - -
      exact halts_pure _
    | app bundleId body =>
      obtain ⟨enough, hEnough⟩ := hBody body (by simp; omega)
      refine ⟨enough, fun fuel hFuel ctx hStack hScope => ?_⟩
      apply halts_bind (hEnough fuel hFuel (ctx.forBody .app none) hStack hScope)
      rintro body' - - -
      exact halts_pure _
    | _ =>
      refine ⟨0, fun fuel _ ctx _ _ => ?_⟩
      exact halts_pure _
  obtain ⟨enough, hEnough⟩ := hBodies
  refine ⟨enough, fun fuel hFuel ctx hStack hScope => ?_⟩
  apply halts_bind (halts_settle _)
  rintro stamped s s' hStamp
  rw [(stamp_kept (returns_settle hStamp).1).1]
  apply halts_bind (hEnough fuel hFuel ctx hStack hScope)
  rintro action - - -
  split
  · exact halts_pure _
  · exact halts_pure _

theorem expandStep_halts {stack : List String} {scope : R.Scope} {st : Step M}
    (hBody : ∀ inner, sizeOf inner < sizeOf st → Ends R maxDepth stack scope inner)
    (hUse : ∀ component inner, Ends R maxDepth (stack ++ [component]) (R.scopeFor scope component) inner) :
    ∃ enough, ∀ fuel, enough ≤ fuel → ∀ ctx : Context R.Scope, ctx.stack = stack → ctx.scope = scope →
      Halts (expandStep R (expand R maxDepth fuel) ctx st) := by
  cases hCase : st.action with
  | group name inner =>
    have hSize : sizeOf inner < sizeOf st := by
      cases st
      cases hCase
      simp
      omega
    obtain ⟨enough, hEnough⟩ := hBody inner hSize
    refine ⟨enough, fun fuel hFuel ctx hStack hScope => ?_⟩
    simp only [expandStep, hCase]
    apply halts_bind (halts_settle _)
    rintro - - - -
    apply halts_bind (halts_settle _)
    rintro target - - -
    apply halts_bind (by rintro s ⟨⟩)
    rintro id - - -
    exact hEnough fuel hFuel _ hStack hScope
  | steps inner =>
    have hSize : sizeOf inner < sizeOf st := by
      cases st
      cases hCase
      simp
      omega
    obtain ⟨enough, hEnough⟩ := hBody inner hSize
    refine ⟨enough, fun fuel hFuel ctx hStack hScope => ?_⟩
    simp only [expandStep, hCase]
    split
    · exact halts_settle _
    · apply halts_bind (halts_settle _)
      rintro - - - -
      apply halts_bind (halts_settle _)
      rintro target - - -
      exact hEnough fuel hFuel _ hStack hScope
  | use component with_ =>
    -- What the component's steps are decides how much fuel they need, and a call that is refused needs none.
    cases hInstantiate : instantiate R scope component with_ with
    | error refusal =>
      refine ⟨0, fun fuel _ ctx hStack hScope => ?_⟩
      simp only [expandStep, hCase]
      split
      · exact halts_settle _
      · apply halts_bind (halts_settle _)
        rintro substituted s s' hSubstituted
        rw [hScope, hInstantiate] at hSubstituted
        cases (returns_settle hSubstituted).1
    | ok inner =>
      obtain ⟨enough, hEnough⟩ := hUse component inner
      refine ⟨enough, fun fuel hFuel ctx hStack hScope => ?_⟩
      simp only [expandStep, hCase]
      split
      · exact halts_settle _
      · apply halts_bind (halts_settle _)
        rintro substituted s s' hSubstituted
        rw [hScope, hInstantiate] at hSubstituted
        cases (returns_settle hSubstituted).1
        apply halts_bind (halts_settle _)
        rintro target - - -
        exact hEnough fuel hFuel _ (by rw [hStack]) (by rw [hScope])
  | _ =>
    obtain ⟨enough, hEnough⟩ := keepStep_halts hBody
    refine ⟨enough, fun fuel hFuel ctx hStack hScope => ?_⟩
    simp only [expandStep, hCase]
    exact hEnough fuel hFuel ctx hStack hScope

theorem expand_ends (stack : List String) (scope : R.Scope) (steps : List (Step M)) :
    Ends R maxDepth stack scope steps := by
  by_cases hDeep : maxDepth < stack.length
  · refine ⟨1, fun fuel hFuel ctx hStack _ => ?_⟩
    obtain ⟨fuel, rfl⟩ : ∃ rest, fuel = rest + 1 := ⟨fuel - 1, by omega⟩
    rw [expand, if_pos (hStack ▸ hDeep)]
    exact halts_settle _
  · have hSteps : ∀ st ∈ steps, ∃ enough, ∀ fuel, enough ≤ fuel → ∀ ctx : Context R.Scope, ctx.stack = stack →
        ctx.scope = scope → Halts (expandStep R (expand R maxDepth fuel) ctx st) := by
      intro st hMem
      have hSize := List.sizeOf_lt_of_mem hMem
      apply expandStep_halts
      · intro inner hInner
        exact expand_ends stack scope inner
      · intro component inner
        exact expand_ends (stack ++ [component]) (R.scopeFor scope component) inner
    obtain ⟨enough, hEnough⟩ := exists_fuel steps hSteps
    refine ⟨enough + 1, fun fuel hFuel ctx hStack hScope => ?_⟩
    obtain ⟨fuel, rfl⟩ : ∃ rest, fuel = rest + 1 := ⟨fuel - 1, by omega⟩
    rw [expand, if_neg (hStack ▸ hDeep)]
    apply halts_bind (halts_mapM steps fun st hMem => hEnough fuel (by omega) st hMem ctx hStack hScope)
    rintro fronts - - -
    exact halts_pure _
termination_by ((maxDepth + 1 - stack.length).toNat, sizeOf steps)
decreasing_by
  · apply Prod.Lex.right
    omega
  · apply Prod.Lex.left
    rw [List.length_append, List.length_singleton]
    omega

/-! ## Scenarios -/

variable {f : List (Step M) → Run (List (Step M))} {scenario expanded : Scenario M} {count count' : Nat}

theorem steps_mem_phases (scenario : Scenario M) : scenario.steps ∈ scenario.stepPhases := by
  simp [Scenario.stepPhases]

theorem setup_mem_phases (scenario : Scenario M) : scenario.setup ∈ scenario.stepPhases := by
  simp [Scenario.stepPhases]

theorem rule_mem_phases {rule : CleanupRule M} (h : rule ∈ scenario.cleanup) : rule.steps ∈ scenario.stepPhases := by
  simp only [Scenario.stepPhases, List.mem_append, List.mem_map]
  exact .inl (.inr ⟨rule, h, rfl⟩)

theorem screen_mem_phases {condition : M.Condition} {steps : List (Step M)} {target : Option String}
    (h : .screen condition steps target ∈ scenario.interrupts) : steps ∈ scenario.stepPhases := by
  simp only [Scenario.stepPhases, List.mem_append, List.mem_filterMap]
  exact .inr ⟨_, h, rfl⟩

theorem expandWith_halts (h : ∀ steps ∈ scenario.stepPhases, Halts (f steps)) : Halts (scenario.expandWith f) := by
  apply halts_bind (h scenario.steps (steps_mem_phases scenario))
  rintro steps - - -
  apply halts_bind (h scenario.setup (setup_mem_phases scenario))
  rintro setup - - -
  apply halts_bind
  · apply halts_mapM
    intro rule hMem
    apply halts_bind (h rule.steps (rule_mem_phases hMem))
    rintro steps - - -
    exact halts_pure _
  rintro cleanup - - -
  apply halts_bind
  · apply halts_mapM
    intro entry hMem
    cases entry with
    | screen condition steps target =>
      apply halts_bind (h steps (screen_mem_phases hMem))
      rintro steps - - -
      exact halts_pure _
    | stepless entry => exact halts_pure _
  rintro interrupts - - -
  exact halts_pure _

theorem rule_returns {rule rule' : CleanupRule M}
    (h : ∃ before after, Returns (rule.expandWith f) before rule' after) :
    ∃ before after, Returns (f rule.steps) before rule'.steps after := by
  obtain ⟨before, after, h⟩ := h
  obtain ⟨steps, mid, hSteps, h⟩ := returns_bind h
  obtain ⟨rfl, -⟩ := returns_pure h
  exact ⟨before, mid, hSteps⟩

theorem entries_return {entries entries' : List (InterruptEntry M)}
    (h : List.Forall₂ (fun entry entry' => ∃ before after, Returns (entry.expandWith f) before entry' after) entries entries') :
    List.Forall₂ (fun steps steps' => ∃ before after, Returns (f steps) before steps' after)
      (entries.filterMap InterruptEntry.steps?) (entries'.filterMap InterruptEntry.steps?) := by
  induction h with
  | nil => exact .nil
  | @cons entry entry' _ _ hEntry _ ih =>
    obtain ⟨before, after, hEntry⟩ := hEntry
    cases entry with
    | screen condition steps target =>
      obtain ⟨steps', mid, hSteps, hEntry⟩ := returns_bind hEntry
      obtain ⟨rfl, -⟩ := returns_pure hEntry
      exact .cons ⟨before, mid, hSteps⟩ ih
    | stepless entry =>
      obtain ⟨rfl, -⟩ := returns_pure hEntry
      exact ih

theorem expandWith_returns (h : Returns (scenario.expandWith f) count expanded count') :
    List.Forall₂ (fun steps steps' => ∃ before after, Returns (f steps) before steps' after)
      scenario.stepPhases expanded.stepPhases := by
  obtain ⟨steps, _, hSteps, h⟩ := returns_bind h
  obtain ⟨setup, _, hSetup, h⟩ := returns_bind h
  obtain ⟨cleanup, _, hCleanup, h⟩ := returns_bind h
  obtain ⟨interrupts, _, hInterrupts, h⟩ := returns_bind h
  obtain ⟨rfl, -⟩ := returns_pure h
  have hRules := (returns_mapM hCleanup).imp fun rule rule' h => rule_returns h
  have hEntries := entries_return (returns_mapM hInterrupts)
  exact .cons ⟨_, _, hSteps⟩ (.cons ⟨_, _, hSetup⟩
    (List.rel_append (List.forall₂_map_left_iff.mpr (List.forall₂_map_right_iff.mpr hRules)) hEntries))

theorem expandTargetGroups_plain (h : ∀ steps ∈ scenario.stepPhases, PlainSteps steps) :
    expandTargetGroups scenario = .ok scenario := by
  have hSame : ∀ steps ∈ scenario.stepPhases, TargetGroups.expandSteps none false steps = .ok steps :=
    fun steps hMem => targetGroups_plain false steps (h steps hMem)
  have hCleanup : scenario.cleanup.mapM (CleanupRule.expandWith (TargetGroups.expandSteps none false)) =
      .ok (scenario.cleanup.map id) := by
    apply mapM_eq_ok
    intro rule hMem
    rw [CleanupRule.expandWith, hSame rule.steps (rule_mem_phases hMem)]
    rfl
  have hInterrupts : scenario.interrupts.mapM (InterruptEntry.expandWith (TargetGroups.expandSteps none false)) =
      .ok (scenario.interrupts.map id) := by
    apply mapM_eq_ok
    intro entry hMem
    cases entry with
    | screen condition steps target =>
      rw [InterruptEntry.expandWith, hSame steps (screen_mem_phases hMem)]
      rfl
    | stepless entry => rfl
  rw [expandTargetGroups, Scenario.expandWith, hSame scenario.steps (steps_mem_phases scenario),
    hSame scenario.setup (setup_mem_phases scenario)]
  simp only [hCleanup, hInterrupts, List.map_id]
  rfl

/-- What a phase becomes: no authoring form is left in it, and its steps are spliced in their places. -/
structure Expanded (R : Resolver M) (steps steps' : List (Step M)) : Prop where
  plain : PlainSteps steps'
  splice : Splice R R.start steps steps'
  leaves : ∀ other, Splice R R.start steps other → leaves other = leaves steps'

theorem exists_related {α β : Type} {P : α → β → Prop} {xs : List α} {ys : List β} (h : List.Forall₂ P xs ys) {y : β}
    (hMem : y ∈ ys) : ∃ x, P x y := by
  induction h with
  | nil => cases hMem
  | cons hHead _ ih =>
    cases hMem with
    | head => exact ⟨_, hHead⟩
    | tail _ hMem => exact ih hMem

variable {checks : Scenario M → Except Refusal Unit}

theorem expandWith_expanded {fuel : Nat}
    (h : Returns (scenario.expandWith (expandSteps R maxDepth fuel)) count expanded count') :
    List.Forall₂ (Expanded R) scenario.stepPhases expanded.stepPhases := by
  refine (expandWith_returns h).imp fun steps steps' hSteps => ?_
  obtain ⟨before, after, hSteps⟩ := hSteps
  have hSplice : Splice R R.start steps steps' := expand_splices _ _ _ _ _ _ hSteps
  exact ⟨hSplice.plain, hSplice, fun other hOther => hSplice.leaves_unique hOther⟩

theorem expandWith_plain {fuel : Nat}
    (h : Returns (scenario.expandWith (expandSteps R maxDepth fuel)) count expanded count') :
    ∀ steps ∈ expanded.stepPhases, PlainSteps steps := by
  intro steps hMem
  obtain ⟨_, hExpanded⟩ := exists_related (expandWith_expanded h) hMem
  exact hExpanded.plain

theorem expandScenario_expandWith {fuel : Nat}
    (h : Returns (expandScenario R maxDepth checks fuel scenario) count expanded count') :
    Returns (scenario.expandWith (expandSteps R maxDepth fuel)) count expanded count' := by
  obtain ⟨first, _, hFirst, hGrouping⟩ := returns_bind h
  obtain ⟨second, _, hSecond, hChecking⟩ := returns_bind hGrouping
  obtain ⟨⟨⟩, _, hChecks, hLast⟩ := returns_bind hChecking
  obtain ⟨rfl, rfl⟩ := returns_pure hLast
  rw [expandTargetGroups_plain (expandWith_plain hFirst)] at hSecond
  obtain ⟨hSame, rfl⟩ := returns_settle hSecond
  obtain ⟨-, rfl⟩ := returns_settle hChecks
  cases hSame
  exact hFirst

theorem expandComponents_halts (R : Resolver M) (maxDepth : Int) (checks : Scenario M → Except Refusal Unit)
    (scenarios : List (Scenario M)) :
    ∃ enough, ∀ fuel, enough ≤ fuel → Halts (expandComponents R maxDepth checks fuel scenarios) := by
  have hEach : ∀ scenario ∈ scenarios, ∃ enough, ∀ fuel, enough ≤ fuel →
      Halts (expandScenario R maxDepth checks fuel scenario) := by
    intro scenario _
    obtain ⟨enough, hEnough⟩ := @exists_fuel (List (Step M))
      (fun steps fuel => Halts (expandSteps R maxDepth fuel steps)) scenario.stepPhases fun steps _ => by
        obtain ⟨enough, hEnough⟩ := @expand_ends M R maxDepth [] R.start steps
        exact ⟨enough, fun fuel hFuel => hEnough fuel hFuel R.outset rfl rfl⟩
    refine ⟨enough, fun fuel hFuel => ?_⟩
    apply halts_bind (expandWith_halts (hEnough fuel hFuel))
    rintro expanded - - -
    apply halts_bind (halts_settle _)
    rintro grouped - - -
    apply halts_bind (halts_settle _)
    rintro - - - -
    exact halts_pure _
  obtain ⟨enough, hEnough⟩ := exists_fuel scenarios hEach
  exact ⟨enough, fun fuel hFuel => halts_mapM scenarios (hEnough fuel hFuel)⟩

/-- Expansion comes to its end, with whatever components refer to one another, and what it returns has no authoring
form at any depth of any phase: its leaf actions are those that the forms stand for, in their places. -/
theorem expand_components_eliminates (R : Resolver M) (maxDepth : Int) (checks : Scenario M → Except Refusal Unit)
    (scenarios : List (Scenario M)) :
    (∃ enough, ∀ fuel, enough ≤ fuel → Halts (expandComponents R maxDepth checks fuel scenarios)) ∧
      ∀ fuel count out count', Returns (expandComponents R maxDepth checks fuel scenarios) count out count' →
        List.Forall₂ (fun scenario expanded => List.Forall₂ (Expanded R) scenario.stepPhases expanded.stepPhases)
          scenarios out := by
  refine ⟨expandComponents_halts R maxDepth checks scenarios, ?_⟩
  intro fuel count out count' h
  refine (returns_mapM h).imp fun scenario expanded hScenario => ?_
  obtain ⟨before, after, hScenario⟩ := hScenario
  exact expandWith_expanded (expandScenario_expandWith hScenario)

/-! ## A component with a parameter -/

/-- Models that are the values they are read from. -/
def plainModel : Model Val := ⟨id, some⟩

def plainModels : Models := ⟨fun _ => Val, fun _ => plainModel, Val, plainModel, Val, plainModel, Val, plainModel⟩

def plainStep (action : Action plainModels (Step plainModels)) : Step plainModels :=
  ⟨action, none, none, none, none, none, none, none⟩

/-- The component types its parameter, and every reference is to it. -/
def typing : Resolver plainModels where
  Scope := Unit
  start := ()
  resolve := fun _ _ => .ok ⟨["text"], [plainStep (.leaf .type (.str "${params.text}"))]⟩
  scopeFor := fun _ _ => ()

def greeting : Scenario plainModels where
  steps := [plainStep (.group "greet" [plainStep (.use "typing" [("text", "hello")])]), plainStep (.leaf .back .null)]
  setup := []
  cleanup := []
  interrupts := []
  rest := .null

theorem expand_components_greeting :
    ∃ out count, Returns (expandComponents typing 25 (fun _ => .ok ()) 3 [greeting]) 0 out count ∧
      (out.flatMap fun expanded => leaves expanded.steps) = [⟨.type, Val.str "hello"⟩, ⟨.back, Val.null⟩] ∧
      List.Forall₂ (fun scenario expanded => List.Forall₂ (Expanded typing) scenario.stepPhases expanded.stepPhases)
        [greeting] out := by
  refine ⟨_, _, rfl, rfl, ?_⟩
  exact (expand_components_eliminates typing 25 (fun _ => .ok ()) [greeting]).2 3 0 _ _ rfl

end Bajutsu.Scenarios
