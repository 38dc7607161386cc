import Mathlib.Data.List.Perm.Basic
import Mathlib.Data.Rat.Defs
import Bajutsu.Analysis.References

/-!
# The determinism audit

The audit grades every selector that its walk finds. Beside it stands every selector that a scenario addresses, at the
place where it stands; the walk finds those at the places that it visits.
-/

namespace Bajutsu.Analysis

open Drivers

/-! ## `audit_scenario` -/

inductive Tier where
  | stable
  | moderate
  | fragile
  deriving DecidableEq

/-- `_tier`: the strongest field counts, but an index outweighs it. -/
def tier (sel : Selector) : Tier :=
  if sel.index.isSome then .fragile else if sel.id.isSome || sel.idMatches.isSome then .stable else .moderate

def primary (ids : Option Ids) : List String := (ids.bind fun ids => (idCandidates ids).head?).toList

/-- `_selector_ids`: the first candidate of each. -/
def selectorIds (sel : Selector) : List String := primary sel.id ++ primary sel.idMatches

def referencedIds (scenario : Scenario) : List String :=
  (locatedSelectors scenario).flatMap fun located => selectorIds located.2

structure Finding where
  where_ : String
  kind : String
  detail : String

def loosePause (until_ : String) : Finding :=
  ⟨"wait", "loose-wait",
    "waits on \x27" ++ until_ ++ "\x27 (no concrete element/condition); prefer wait `for` an id"⟩

def ownFindings (st : Step) : List Finding :=
  match st.action with
  | .leaf (.swipe none) =>
    [⟨"swipe", "coordinate-gesture",
      "swipes by raw coordinates (\x7bfrom,to\x7d); prefer \x7bon,direction\x7d on a stable id"⟩]
  | .leaf (.wait .screenChanged) => [loosePause "screenChanged"]
  | .leaf (.wait .settled) => [loosePause "settled"]
  | _ => []

def stepFindings (st : Step) : List Finding := st.walk ownFindings Body.audited

structure Sleep where
  seconds : ℚ
  reason : String

def fixedSleepModerate : ℚ := 10

structure AuditReport where
  scenario : String
  selectors : Nat
  stable : Nat
  moderate : Nat
  fragile : Nat
  stability : ℚ
  grade : String
  findings : List Finding

section Report

-- how a selector and a number of seconds are written, and the sleeps that are written anywhere in the scenario
variable (describe : Selector → String) (seconds : ℚ → String) (sleeps : List Sleep) (scenario : Scenario)

def sleepFinding (sleep : Sleep) : Finding :=
  ⟨"sleep", "fixed-sleep",
    "pauses a fixed " ++ seconds sleep.seconds ++ "s (" ++ sleep.reason ++
      "); replace with a `wait` once a condition can observe it"⟩

def selectorFinding (where_ : String) (sel : Selector) : Option Finding :=
  match tier sel with
  | .stable => none
  | .fragile => some ⟨where_, "fragile-selector", describe sel ++ " relies on index (a flaky last resort)"⟩
  | .moderate => some ⟨where_, "moderate-selector", describe sel ++ " is auxiliary; prefer a unique id"⟩

def tiers (t : Tier) : Nat := (locatedSelectors scenario).countP fun located => tier located.2 = t

def grade (gestures : List Finding) : String :=
  if tiers scenario .fragile ≠ 0 || gestures.any (·.kind = "coordinate-gesture") then "Fragile"
  else if tiers scenario .moderate ≠ 0 || gestures.any (·.kind = "loose-wait") ||
      fixedSleepModerate < (sleeps.map Sleep.seconds).sum then "Moderate"
  else "Stable"

def auditScenario : AuditReport :=
  let located := locatedSelectors scenario
  let gestures := scenario.steps.flatMap stepFindings
  { scenario := scenario.name
    selectors := located.length
    stable := tiers scenario .stable
    moderate := tiers scenario .moderate
    fragile := tiers scenario .fragile
    stability := if located.length ≠ 0 then (tiers scenario .stable : ℚ) / located.length else 1
    grade := grade sleeps scenario gestures
    findings := (located.filterMap fun (where_, sel) => selectorFinding describe where_ sel) ++ gestures ++
      sleeps.map (sleepFinding seconds) }

end Report

/-! ## Every selector at its place -/

/-- A selector and the scopes that it nests. -/
def chain : Selector → List Selector
  | ⟨id, idMatches, label, labelMatches, traits, value, none, index⟩ =>
    [⟨id, idMatches, label, labelMatches, traits, value, none, index⟩]
  | ⟨id, idMatches, label, labelMatches, traits, value, some within, index⟩ =>
    ⟨id, idMatches, label, labelMatches, traits, value, some within, index⟩ :: chain within

/-- A selector of a step, under the bodies that lead to it and in its field. -/
abbrev StepPlace := List Body × Field × Selector

mutual
def Step.places : Step → List StepPlace
  | ⟨action, extract, name⟩ =>
    (Step.selectorFields ⟨action, extract, name⟩).map (Prod.mk []) ++ actionPlaces action

def actionPlaces : Action Step → List StepPlace
  | .leaf _ => []
  | .web _ steps => stepsPlaces .web steps
  | .app steps => stepsPlaces .app steps
  | .steps steps => stepsPlaces .targetGroup steps
  | .if_ _ then_ else_ => stepsPlaces .then_ then_ ++ stepsPlaces .else_ else_
  | .forEach _ steps => stepsPlaces .forEach steps
  | .group steps => stepsPlaces .group steps

def stepsPlaces (body : Body) : List Step → List StepPlace
  | [] => []
  | st :: steps => st.places.map (fun (route, located) => (body :: route, located)) ++ stepsPlaces body steps
end

/-- Every selector that the steps and the expectations of a scenario address. -/
def Scenario.addressed (scenario : Scenario) : List (Place × Selector) :=
  (scenario.steps.flatMap fun st => st.places.map fun (route, field, sel) => (.step .steps route field, sel)) ++
    scenario.expect.flatMap fun check => check.selectorFields.map fun (check, sel) => (.expect check, sel)

/-! ## The walk finds the places that it visits -/

theorem stepsPlaces_eq (body : Body) (steps : List Step) : stepsPlaces body steps =
    steps.flatMap fun st => st.places.map fun (route, located) => (body :: route, located) := by
  induction steps with
  | nil => rw [stepsPlaces, List.flatMap_nil]
  | cons st steps ih => rw [stepsPlaces, ih, List.flatMap_cons]

theorem actionPlaces_eq (action : Action Step) : actionPlaces action = action.bodies.flatMap fun (body, steps) =>
    steps.flatMap fun st => st.places.map fun (route, located) => (body :: route, located) := by
  cases action with
  | if_ condition then_ else_ =>
    simp only [actionPlaces, Action.bodies, stepsPlaces_eq, List.flatMap_cons, List.flatMap_nil, List.append_nil]
  | _ => simp only [actionPlaces, Action.bodies, stepsPlaces_eq, List.flatMap_cons, List.flatMap_nil, List.append_nil]

theorem places_eq (st : Step) :
    st.places = st.selectorFields.map (Prod.mk []) ++ actionPlaces st.action := by
  cases st
  rw [Step.places]

theorem walkSteps_eq {α : Type} (own : Step → List α) (enters : Body → Bool) (steps : List Step) :
    walkSteps own enters steps = steps.flatMap fun st => st.walk own enters := by
  induction steps with
  | nil => rw [walkSteps, List.flatMap_nil]
  | cons st steps ih => rw [walkSteps, ih, List.flatMap_cons]

theorem walkAction_eq {α : Type} (own : Step → List α) (enters : Body → Bool) (action : Action Step) :
    walkAction own enters action = action.bodies.flatMap fun (body, steps) =>
      if enters body then steps.flatMap fun st => st.walk own enters else [] := by
  cases action with
  | _ => simp only [walkAction, Action.bodies, walkSteps_eq, List.flatMap_cons, List.flatMap_nil, List.append_nil]

def visited (place : StepPlace) : Bool := place.1.all Body.audited && place.2.1.indexed

theorem assertionSelectors_eq (check : Assertion) :
    (assertionSelectors check).map Prod.snd = (check.selectorFields.filter (·.1.indexed)).map Prod.snd := by
  cases check with
  | visual element exclude =>
    have hElement : (element.toList.map (Prod.mk Check.visualElement)).filter (·.1.indexed) = [] := by
      cases element with
      | _ => rfl
    have hExclude : ((exclude.filterMap regionSelector).map (Prod.mk Check.visualExclude)).filter (·.1.indexed) = [] := by
      rw [List.filter_map, List.map_eq_nil_iff]
      exact List.filter_eq_nil_iff.mpr fun _ _ => nofun
    rw [Assertion.selectorFields, List.filter_append, hElement, hExclude]
    rfl
  | _ => rfl

theorem checkSelectors_eq {α : Type} (checks : List Assertion) (field : Check → α) (indexed : α → Bool)
    (hField : ∀ check, indexed (field check) = check.indexed) :
    (checks.flatMap assertionSelectors).map Prod.snd =
      ((checks.flatMap fun check => check.selectorFields.map fun (check, sel) => (field check, sel)).filter
        fun located => indexed located.1).map Prod.snd := by
  rw [List.map_flatMap, List.filter_flatMap, List.map_flatMap]
  apply List.flatMap_congr
  intro check _
  rw [assertionSelectors_eq, List.filter_map, List.map_map]
  congr 2
  funext located
  exact (hField located.1).symm

theorem leafSelectors_eq (leaf : Leaf) :
    (leafSelectors leaf).map Prod.snd ++ ((leafAssertions leaf).flatMap assertionSelectors).map Prod.snd =
      (leaf.selectorFields.filter (·.1.indexed)).map Prod.snd := by
  cases leaf with
  | assert checks => exact checkSelectors_eq checks .assert Field.indexed fun _ => rfl
  | type into => cases into with
    | _ => rfl
  | swipe on_ => cases on_ with
    | _ => rfl
  | scroll to_ within => cases within with
    | _ => rfl
  | wait wait => cases wait with
    | _ => rfl
  | handleSystemAlert sel => cases sel with
    | _ => rfl
  | _ => rfl

theorem controlSelectors_eq {action : Action Step} (h : actionLeaf action = none) :
    (controlSelectors action).map Prod.snd = (action.selectorFields.filter (·.1.indexed)).map Prod.snd := by
  cases action with
  | leaf leaf => cases h
  | if_ condition then_ else_ =>
    have hCheck := checkSelectors_eq [condition] .condition Field.indexed fun _ => rfl
    rw [List.flatMap_singleton, List.flatMap_singleton] at hCheck
    exact hCheck
  | _ => rfl

theorem ownSelectors_perm (st : Step) :
    ((ownSelectors st).map Prod.snd).Perm ((st.selectorFields.filter (·.1.indexed)).map Prod.snd) := by
  have hIndexed : (st.extract.map fun (_, sel) => (Field.extract, sel)).filter (·.1.indexed) =
      st.extract.map fun (_, sel) => (Field.extract, sel) := by
    apply List.filter_eq_self.mpr
    intro located hMem
    obtain ⟨_, -, rfl⟩ := List.mem_map.mp hMem
    rfl
  have hExtract : (st.extract.map fun (_, sel) => ("extract", sel)).map Prod.snd =
      (st.extract.map fun (_, sel) => (Field.extract, sel)).map Prod.snd := by
    rw [List.map_map, List.map_map]
    rfl
  rw [ownSelectors, Step.selectorFields, List.filter_append, hIndexed]
  simp only [List.map_append, hExtract]
  cases hLeaf : actionLeaf st.action with
  | none =>
    rw [controlSelectors_eq hLeaf]
    simp only [Option.toList_none, List.flatMap_nil, List.map_nil, List.nil_append, List.append_nil]
    exact List.perm_append_comm
  | some leaf =>
    have hAction : st.action = .leaf leaf := by
      cases hSame : st.action <;> rw [hSame] at hLeaf <;> cases hLeaf
      rfl
    rw [hAction, Action.selectorFields, ← leafSelectors_eq]
    simp only [Option.toList_some, List.flatMap_singleton, controlSelectors, List.map_nil, List.append_nil,
      List.append_assoc]
    exact List.perm_append_comm.append_left _

/-- The selectors that the audit finds in a step are those at the places that it visits. -/
theorem stepSelectors_perm (st : Step) :
    ((stepSelectors st).map Prod.snd).Perm ((st.places.filter visited).map fun place => place.2.2) := by
  induction st using Step.induction with
  | h st ih =>
    have hOwn : (((st.selectorFields.map (Prod.mk [])).filter visited).map fun place => place.2.2) =
        (st.selectorFields.filter (·.1.indexed)).map Prod.snd := by
      rw [List.filter_map, List.map_map]
      rfl
    rw [stepSelectors, walk_eq, places_eq, List.map_append, List.filter_append, List.map_append, hOwn]
    apply (ownSelectors_perm st).append
    rw [walkAction_eq, actionPlaces_eq, List.map_flatMap, List.filter_flatMap, List.map_flatMap]
    apply List.Perm.flatMap_left
    rintro ⟨body, steps⟩ hBody
    dsimp only
    rw [List.filter_flatMap, List.map_flatMap]
    have hChild (child : Step) : ((child.places.map fun (route, located) => (body :: route, located)).filter visited).map
          (fun place => place.2.2) =
        if body.audited then (child.places.filter visited).map fun place => place.2.2 else [] := by
      rw [List.filter_map, List.map_map]
      cases hAudited : body.audited with
      | true =>
        have hSame : visited ∘ (fun (route, located) => (body :: route, located)) = visited := by
          funext place
          simp [visited, hAudited]
        rw [if_pos rfl, hSame]
        rfl
      | false =>
        rw [if_neg nofun, List.map_eq_nil_iff]
        apply List.filter_eq_nil_iff.mpr
        intro place _
        simp [visited, hAudited]
    cases hAudited : body.audited with
    | true =>
      rw [if_pos rfl, List.map_flatMap]
      apply List.Perm.flatMap_left
      intro child hMem
      rw [hChild, hAudited, if_pos rfl]
      exact ih body steps hBody child hMem
    | false =>
      rw [if_neg nofun, List.map_nil]
      simp only [hChild, hAudited]
      rw [List.flatMap_eq_nil_iff.mpr fun _ _ => if_neg nofun]

theorem places_perm (steps : List Step) : ((steps.flatMap stepSelectors).map Prod.snd).Perm
    (((steps.flatMap fun st => st.places.map fun (route, field, sel) => (Place.step .steps route field, sel)).filter
      (·.1.indexed .id)).map Prod.snd) := by
  rw [List.map_flatMap, List.filter_flatMap, List.map_flatMap]
  apply List.Perm.flatMap_left
  intro st _
  rw [List.filter_map, List.map_map]
  have hSame : ((·.1.indexed .id) ∘ fun (route, field, sel) => (Place.step .steps route field, sel)) = visited := by
    funext place
    simp [visited, Place.indexed, Body.entered]
  rw [hSame]
  exact stepSelectors_perm st

/-- What the audit finds, without the scopes that are nested. -/
def found (scenario : Scenario) : List Selector :=
  (scenario.steps.flatMap stepSelectors ++ scenario.expect.flatMap assertionSelectors).map Prod.snd

theorem found_perm (scenario : Scenario) :
    (found scenario).Perm ((scenario.addressed.filter (·.1.indexed .id)).map Prod.snd) := by
  rw [found, Scenario.addressed, List.map_append, List.filter_append, List.map_append]
  apply (places_perm scenario.steps).append
  rw [checkSelectors_eq scenario.expect .expect (Place.indexed .id) fun _ => rfl]

/-! ## Selectors and the scopes they nest -/

theorem chain_eq (sel : Selector) : chain sel = sel :: (sel.within.toList.flatMap chain) := by
  obtain ⟨id, idMatches, label, labelMatches, traits, value, within, index⟩ := sel
  cases within with
  | none => rfl
  | some within => rw [chain, Option.toList_some, List.flatMap_singleton]

theorem withNested_snd (where_ : String) (sel : Selector) : (withNested where_ sel).map Prod.snd = chain sel := by
  induction where_, sel using withNested.induct with
  | case1 => rfl
  | case2 where_ id idMatches label labelMatches traits value within index ih =>
    rw [withNested, List.map_cons, ih, chain]

theorem nested_snd (located : List (String × Selector)) :
    (located.flatMap fun (where_, sel) => withNested where_ sel).map Prod.snd = (located.map Prod.snd).flatMap chain := by
  rw [List.map_flatMap, List.flatMap_map]
  apply List.flatMap_congr
  intro pair _
  exact withNested_snd pair.1 pair.2

theorem locatedSelectors_snd (scenario : Scenario) :
    (locatedSelectors scenario).map Prod.snd = (found scenario).flatMap chain := by
  rw [locatedSelectors, ← List.flatMap_assoc, ← List.flatMap_assoc, ← List.flatMap_append, nested_snd, found]

/-- A list of selectors can be told from what they nest, as each stands before its scopes. -/
theorem flatMap_chain_injective {order other : List Selector} (h : order.flatMap chain = other.flatMap chain) :
    order = other := by
  induction order generalizing other with
  | nil =>
    cases other with
    | nil => rfl
    | cons sel other =>
      rw [List.flatMap_nil, List.flatMap_cons, chain_eq] at h
      cases h
  | cons sel order ih =>
    cases other with
    | nil =>
      rw [List.flatMap_nil, List.flatMap_cons, chain_eq] at h
      cases h
    | cons first other =>
      have hFirst : sel = first := by
        rw [List.flatMap_cons, List.flatMap_cons, chain_eq sel, chain_eq first] at h
        exact (List.cons.inj h).1
      rw [hFirst, List.flatMap_cons, List.flatMap_cons] at h
      rw [hFirst, ih (List.append_cancel_left h)]

theorem mem_located {scenario : Scenario} {sel : Selector} :
    sel ∈ (found scenario).flatMap chain ↔ ∃ where_, (where_, sel) ∈ locatedSelectors scenario := by
  rw [← locatedSelectors_snd, List.mem_map]
  constructor
  · rintro ⟨⟨where_, _⟩, hMem, rfl⟩
    exact ⟨where_, hMem⟩
  · rintro ⟨where_, hMem⟩
    exact ⟨_, hMem, rfl⟩

/-! ## The audit sees every selector -/

section Sees

variable (describe : Selector → String) (seconds : ℚ → String) (sleeps : List Sleep)

/-- Every selector that is addressed is found once, before the scopes that it nests; the grade and the referenced ids
miss none of them. -/
structure Sees (scenario : Scenario) : Prop where
  located : ∃ order : List Selector, order.Perm (scenario.addressed.map Prod.snd) ∧
    (locatedSelectors scenario).map Prod.snd = order.flatMap chain
  fragile : ∀ sel ∈ (scenario.addressed.map Prod.snd).flatMap chain, sel.index.isSome = true →
    (auditScenario describe seconds sleeps scenario).grade = "Fragile"
  ids : ∀ sel ∈ (scenario.addressed.map Prod.snd).flatMap chain, ∀ rid ∈ selectorIds sel, rid ∈ referencedIds scenario

variable {describe seconds sleeps}

theorem grade_of_located {scenario : Scenario} {where_ : String} {sel : Selector}
    (hMem : (where_, sel) ∈ locatedSelectors scenario) (hIndex : sel.index.isSome = true) :
    (auditScenario describe seconds sleeps scenario).grade = "Fragile" := by
  have hTier : tiers scenario .fragile ≠ 0 := by
    have hCount : 0 < tiers scenario .fragile := by
      apply List.countP_pos_iff.mpr
      exact ⟨_, hMem, by rw [decide_eq_true_eq, tier, if_pos hIndex]⟩
    omega
  apply if_pos
  rw [decide_eq_true hTier, Bool.true_or]

/-- The audit sees every selector exactly when each stands at a place that its walk visits. -/
theorem audit_sees_iff (describe : Selector → String) (seconds : ℚ → String) (sleeps : List Sleep) (scenario : Scenario) :
    Sees describe seconds sleeps scenario ↔ ∀ located ∈ scenario.addressed, located.1.indexed .id = true := by
  have hFound := found_perm scenario
  constructor
  · intro h
    obtain ⟨order, hOrder, hLocated⟩ := h.located
    rw [locatedSelectors_snd] at hLocated
    rw [← flatMap_chain_injective hLocated] at hOrder
    have hLength := hFound.length_eq.symm.trans hOrder.length_eq
    rw [List.length_map, List.length_map] at hLength
    exact List.length_filter_eq_length_iff.mp hLength
  · intro h
    rw [List.filter_eq_self.mpr h] at hFound
    have hNested : ∀ sel ∈ (scenario.addressed.map Prod.snd).flatMap chain,
        ∃ where_, (where_, sel) ∈ locatedSelectors scenario := by
      intro sel hMem
      exact mem_located.mp ((hFound.flatMap_right chain).mem_iff.mpr hMem)
    refine ⟨⟨found scenario, hFound, locatedSelectors_snd scenario⟩, ?_, ?_⟩
    · intro sel hMem hIndex
      obtain ⟨where_, hLocated⟩ := hNested sel hMem
      exact grade_of_located hLocated hIndex
    · intro sel hMem rid hId
      obtain ⟨where_, hLocated⟩ := hNested sel hMem
      exact List.mem_flatMap.mpr ⟨_, hLocated, hId⟩

end Sees

/-- A step that clears the second of the fields with a label. -/
def clearsByIndex : Scenario where
  name := "clear"
  steps := [⟨.leaf (.clear { label := some "Name", index := some 1 }), [], none⟩]

/-- It is graded Stable. -/
theorem audit_misses_clear : ¬∀ (describe : Selector → String) (seconds : ℚ → String) (sleeps : List Sleep)
    (scenario : Scenario), Sees describe seconds sleeps scenario := by
  intro hAll
  have hSees := hAll (fun _ => "") (fun _ => "") [] clearsByIndex
  have hFragile := hSees.fragile { label := some "Name", index := some 1 } List.mem_cons_self rfl
  exact absurd hFragile (by decide)

end Bajutsu.Analysis
