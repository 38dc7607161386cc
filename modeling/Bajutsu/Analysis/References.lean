import Bajutsu.Drivers.Selector

/-!
# What a scenario refers to

A scenario refers to elements by the ids of its selectors and to endpoints by the exact URLs and paths of its request
matchers, in its steps, nested ones included, and in its conditions. The determinism audit and the coverage map walk the
same schema by hand; the places that each of them visits are told apart here from all the places there are.
-/

namespace Bajutsu.Analysis

open Drivers

/-! ## The schema -/

/-- The endpoint criteria of a request matcher or an event matcher. -/
structure EndpointMatch where
  method : Option String := none
  url : Option String := none
  urlMatches : Option String := none
  path : Option String := none
  pathMatches : Option String := none

/-- What a visual comparison ignores. -/
inductive Region where
  | rectangle
  | element (selector : Selector)

inductive Assertion where
  | exists_ (sel : Selector)
  | value (sel : Selector)
  | label (sel : Selector)
  | count (sel : Selector)
  | enabled (sel : Selector)
  | disabled (sel : Selector)
  | selected (sel : Selector)
  | request (request : EndpointMatch)
  | event (event : EndpointMatch)
  | requestSequence (requests : List EndpointMatch)
  | responseSchema (request : EndpointMatch)
  | visual (element : Option Selector) (exclude : List Region)
  | clipboard
  | attribute (sel : Selector)
  | golden

inductive Wait where
  | for_ (sel : Selector)
  | gone (sel : Selector)
  | request (request : EndpointMatch)
  | screenChanged
  | settled

inductive Leaf where
  | tap (sel : Selector)
  | tapPoint
  | doubleTap (sel : Selector)
  | longPress (sel : Selector)
  | type (into : Option Selector)
  | select (into : Selector)
  | clear (into : Selector)
  | delete (into : Selector)
  | copy
  | selectOption (sel : Selector)
  | selectPhotos
  | setPickerValue (sel : Selector)
  | swipe (on_ : Option Selector)
  | drag (on_ : Selector)
  | scroll (to_ : Selector) (within : Option Selector)
  | back
  | navigate (url : String)
  | pinch (sel : Selector)
  | rotate (sel : Selector)
  | wait (wait : Wait)
  | sleep
  | assert (checks : List Assertion)
  | relaunch
  | setLocation
  | push
  | use
  | http (url : String)
  | totp
  | generate
  | eval
  | email
  | clearKeychain
  | clearClipboard
  | setClipboard
  | setMocks (mocks : List EndpointMatch)
  | background
  | foreground
  | installApp
  | setPrimaryTarget
  | overrideStatusBar
  | clearStatusBar
  | handleSystemAlert (sel : Option Selector)
  | manual

/-- An absent `else` reads as an empty one. -/
inductive Action (S : Type) where
  | leaf (leaf : Leaf)
  | web (within : Selector) (steps : List S)
  | app (steps : List S)
  | steps (steps : List S)
  | if_ (condition : Assertion) (then_ : List S) (else_ : List S)
  | forEach (sel : Selector) (steps : List S)
  | group (steps : List S)

structure Step where
  action : Action Step
  extract : List (String × Selector) := []
  name : Option String := none

/-- A list of steps inside a step. -/
inductive Body where
  | then_
  | else_
  | forEach
  | group
  | targetGroup
  | web
  | app
  deriving DecidableEq

def Action.bodies : Action Step → List (Body × List Step)
  | leaf _ => []
  | web _ nested => [(.web, nested)]
  | app nested => [(.app, nested)]
  | steps nested => [(.targetGroup, nested)]
  | if_ _ then_ else_ => [(.then_, then_), (.else_, else_)]
  | forEach _ nested => [(.forEach, nested)]
  | group nested => [(.group, nested)]

inductive Interrupt where
  | screen (condition : Assertion) (steps : List Step)
  | systemAlert
  | tipKit

structure CleanupRule where
  steps : List Step

structure Scenario where
  name : String
  deeplink : Option String := none
  setup : List Step := []
  steps : List Step
  expect : List Assertion := []
  cleanup : List CleanupRule := []
  interrupts : List Interrupt := []

/-! ## A walk over a step and the steps inside it -/

section Walk

variable {α : Type} (own : Step → List α) (enters : Body → Bool)

mutual
def Step.walk : Step → List α
  | ⟨action, extract, name⟩ => own ⟨action, extract, name⟩ ++ walkAction action

def walkAction : Action Step → List α
  | .leaf _ => []
  | .web _ steps => if enters .web then walkSteps steps else []
  | .app steps => if enters .app then walkSteps steps else []
  | .steps steps => if enters .targetGroup then walkSteps steps else []
  | .if_ _ then_ else_ =>
    (if enters .then_ then walkSteps then_ else []) ++ if enters .else_ then walkSteps else_ else []
  | .forEach _ steps => if enters .forEach then walkSteps steps else []
  | .group steps => if enters .group then walkSteps steps else []

def walkSteps : List Step → List α
  | [] => []
  | st :: steps => st.walk ++ walkSteps steps
end

/-- A step inside a step, and the bodies it is reached through. -/
inductive Inside : Step → List Body → Step → Prop where
  | here {st : Step} : Inside st [] st
  | deeper {st child inner : Step} {body : Body} {steps : List Step} {route : List Body}
    (hBody : (body, steps) ∈ st.action.bodies) (hChild : child ∈ steps) (hInside : Inside child route inner) :
    Inside st (body :: route) inner

/-- What holds of a step whenever it holds of every step in its bodies holds of all steps. -/
theorem Step.induction {P : Step → Prop}
    (h : ∀ st : Step, (∀ body steps, (body, steps) ∈ st.action.bodies → ∀ child ∈ steps, P child) → P st) :
    ∀ st, P st := by
  intro st
  apply Step.rec (motive_1 := P)
    (motive_2 := fun action => ∀ body steps, (body, steps) ∈ action.bodies → ∀ child ∈ steps, P child)
    (motive_3 := fun steps => ∀ child ∈ steps, P child)
  case mk => exact fun action extract name hAction => h ⟨action, extract, name⟩ hAction
  case leaf => exact fun _ _ _ hMem => nomatch hMem
  case web => exact fun _ _ hSteps _ _ hMem => by cases List.mem_singleton.mp hMem; exact hSteps
  case app => exact fun _ hSteps _ _ hMem => by cases List.mem_singleton.mp hMem; exact hSteps
  case steps => exact fun _ hSteps _ _ hMem => by cases List.mem_singleton.mp hMem; exact hSteps
  case forEach => exact fun _ _ hSteps _ _ hMem => by cases List.mem_singleton.mp hMem; exact hSteps
  case group => exact fun _ hSteps _ _ hMem => by cases List.mem_singleton.mp hMem; exact hSteps
  case if_ =>
    intro _ then_ else_ hThen hElse body steps hMem
    obtain hMem | hMem := List.mem_cons.mp hMem
    · cases hMem
      exact hThen
    · cases List.mem_singleton.mp hMem
      exact hElse
  case nil => exact fun _ hMem => nomatch hMem
  case cons => exact fun _ _ hHead hTail => List.forall_mem_cons.mpr ⟨hHead, hTail⟩

theorem walk_eq (st : Step) : st.walk own enters = own st ++ walkAction own enters st.action := by
  cases st
  rw [Step.walk]

theorem mem_walkSteps {steps : List Step} {x : α} :
    x ∈ walkSteps own enters steps ↔ ∃ child ∈ steps, x ∈ child.walk own enters := by
  induction steps with
  | nil => simp [walkSteps]
  | cons st steps ih => simp [walkSteps, ih]

theorem mem_walkAction {action : Action Step} {x : α} :
    x ∈ walkAction own enters action ↔
      ∃ body steps, (body, steps) ∈ action.bodies ∧ enters body = true ∧ ∃ child ∈ steps, x ∈ child.walk own enters := by
  cases action <;> simp [walkAction, Action.bodies, mem_walkSteps, or_and_right, exists_or]

/-- A walk finds what the steps hold that are reached through bodies it enters. -/
theorem mem_walk {st : Step} {x : α} :
    x ∈ st.walk own enters ↔
      ∃ route inner, Inside st route inner ∧ (∀ body ∈ route, enters body = true) ∧ x ∈ own inner := by
  constructor
  · induction st using Step.induction with
    | h st ih =>
      intro hMem
      rw [walk_eq] at hMem
      obtain hOwn | hNested := List.mem_append.mp hMem
      · exact ⟨[], st, .here, List.forall_mem_nil _, hOwn⟩
      · obtain ⟨body, steps, hBody, hEnters, child, hChild, hMem⟩ := (mem_walkAction own enters).mp hNested
        obtain ⟨route, inner, hInside, hRoute, hOwn⟩ := ih body steps hBody child hChild hMem
        exact ⟨body :: route, inner, .deeper hBody hChild hInside, List.forall_mem_cons.mpr ⟨hEnters, hRoute⟩, hOwn⟩
  · rintro ⟨route, inner, hInside, hRoute, hOwn⟩
    induction hInside with
    | here =>
      rw [walk_eq]
      exact List.mem_append_left _ hOwn
    | deeper hBody hChild hInside ih =>
      obtain ⟨hEnters, hRoute⟩ := List.forall_mem_cons.mp hRoute
      rw [walk_eq]
      exact List.mem_append_right _ ((mem_walkAction own enters).mpr ⟨_, _, hBody, hEnters, _, hChild, ih hRoute hOwn⟩)

end Walk

/-! ## The walks of the audit and of the coverage map -/

def assertionSelectors : Assertion → List (String × Selector)
  | .exists_ sel => [("expect: exists", sel)]
  | .value sel => [("expect: value", sel)]
  | .label sel => [("expect: label", sel)]
  | .attribute sel => [("expect: attribute", sel)]
  | .count sel => [("expect: count", sel)]
  | .enabled sel => [("expect: enabled", sel)]
  | .disabled sel => [("expect: disabled", sel)]
  | .selected sel => [("expect: selected", sel)]
  | _ => []

def waitSelectors : Wait → List (String × Selector)
  | .for_ sel => [("wait", sel)]
  | .gone sel => [("wait", sel)]
  | _ => []

def leafSelectors : Leaf → List (String × Selector)
  | .tap sel => [("tap", sel)]
  | .doubleTap sel => [("doubleTap", sel)]
  | .longPress sel => [("longPress", sel)]
  | .type into => into.toList.map (Prod.mk "type")
  | .swipe on_ => on_.toList.map (Prod.mk "swipe")
  | .pinch sel => [("pinch", sel)]
  | .rotate sel => [("rotate", sel)]
  | .drag on_ => [("drag", on_)]
  | .scroll to_ within => ("scroll", to_) :: within.toList.map (Prod.mk "scroll")
  | .wait wait => waitSelectors wait
  | _ => []

def leafAssertions : Leaf → List Assertion
  | .assert checks => checks
  | _ => []

def controlSelectors : Action Step → List (String × Selector)
  | .if_ condition _ _ => assertionSelectors condition
  | .forEach sel _ => [("forEach", sel)]
  | _ => []

def actionLeaf : Action Step → Option Leaf
  | .leaf leaf => some leaf
  | _ => none

/-- The selectors of a step, those of the steps inside it apart. -/
def ownSelectors (st : Step) : List (String × Selector) :=
  (actionLeaf st.action).toList.flatMap leafSelectors ++ st.extract.map (fun (_, sel) => ("extract", sel)) ++
    ((actionLeaf st.action).toList.flatMap leafAssertions).flatMap assertionSelectors ++ controlSelectors st.action

def Body.audited : Body → Bool
  | then_ | else_ | forEach | group => true
  | targetGroup | web | app => false

def stepSelectors (st : Step) : List (String × Selector) := st.walk ownSelectors Body.audited

/-- A selector and the scopes it nests. -/
def withNested (where_ : String) : Selector → List (String × Selector)
  | ⟨id, idMatches, label, labelMatches, traits, value, none, index⟩ =>
    [(where_, ⟨id, idMatches, label, labelMatches, traits, value, none, index⟩)]
  | ⟨id, idMatches, label, labelMatches, traits, value, some within, index⟩ =>
    (where_, ⟨id, idMatches, label, labelMatches, traits, value, some within, index⟩) ::
      withNested (where_ ++ " within") within

def selectorMatchIds (sel : Selector) : List String := (sel.id.map idCandidates).getD []

def stepMatchableIds (st : Step) : List String :=
  ((stepSelectors st).flatMap fun (where_, sel) => withNested where_ sel).flatMap fun located =>
    selectorMatchIds located.2

def locatedSelectors (scenario : Scenario) : List (String × Selector) :=
  (scenario.steps.flatMap fun st => (stepSelectors st).flatMap fun (where_, sel) => withNested where_ sel) ++
    scenario.expect.flatMap fun check => (assertionSelectors check).flatMap fun (where_, sel) => withNested where_ sel

def scenarioMatchableIds (scenario : Scenario) : List String :=
  (locatedSelectors scenario).flatMap fun located => selectorMatchIds located.2

/-- Held by an event that names an endpoint, and not only a body. -/
def EndpointMatch.isPinned (event : EndpointMatch) : Bool :=
  event.method.isSome || event.url.isSome || event.urlMatches.isSome || event.path.isSome || event.pathMatches.isSome

def assertionRequests : Assertion → List EndpointMatch
  | .request request => [request]
  | .event event => if event.isPinned then [event] else []
  | .requestSequence requests => requests
  | _ => []

def ownRequests (st : Step) : List EndpointMatch :=
  match st.action with
  | .leaf (.wait (.request request)) => [request]
  | .leaf (.assert checks) => checks.flatMap assertionRequests
  | .if_ condition _ _ => assertionRequests condition
  | _ => []

def Body.requested : Body → Bool
  | then_ | else_ | forEach => true
  | group | targetGroup | web | app => false

def stepRequests (st : Step) : List EndpointMatch := st.walk ownRequests Body.requested

def referencedRequests (scenario : Scenario) : List EndpointMatch :=
  scenario.steps.flatMap stepRequests ++ scenario.expect.flatMap assertionRequests

/-- The exact URL and path of a matcher. -/
def EndpointMatch.literals (request : EndpointMatch) : List String := request.url.toList ++ request.path.toList

def requestLiterals (requests : List EndpointMatch) : List String :=
  (requests.flatMap EndpointMatch.literals).filter (· ≠ "")

/-! ## Every place of a reference -/

inductive Kind where
  | id
  | screen
  | endpoint
  deriving DecidableEq

structure Reference where
  kind : Kind
  value : String
  deriving DecidableEq

/-- The literal ids of a selector: every candidate, its own or that of a scope it nests. -/
inductive Names : Selector → String → Prop where
  | own {sel : Selector} {ids : Ids} {rid : String} (hId : sel.id = some ids) (hMem : rid ∈ idCandidates ids) : Names sel rid
  | scope {sel within : Selector} {rid : String} (hWithin : sel.within = some within) (hNames : Names within rid) :
    Names sel rid

/-- A field of a condition that holds a selector or a request matcher. -/
inductive Check where
  | exists_ | value | label | count | enabled | disabled | selected | attribute | visualElement | visualExclude
  | request | event | requestSequence | responseSchema
  deriving DecidableEq

/-- A field of a step that holds a selector, a request matcher or a URL. -/
inductive Field where
  | tap | doubleTap | longPress | typeInto | selectInto | clearInto | deleteInto | selectOption | setPickerValue | swipeOn
  | dragOn | scrollTo | scrollWithin | pinch | rotate | waitFor | waitGone | handleSystemAlert | webWithin | forEachSel
  | extract | waitRequest | navigate | http | setMocks
  | assert (check : Check)
  | condition (check : Check)
  deriving DecidableEq

def regionSelector : Region → Option Selector
  | .rectangle => none
  | .element selector => some selector

def Assertion.selectorFields : Assertion → List (Check × Selector)
  | exists_ sel => [(.exists_, sel)]
  | value sel => [(.value, sel)]
  | label sel => [(.label, sel)]
  | count sel => [(.count, sel)]
  | enabled sel => [(.enabled, sel)]
  | disabled sel => [(.disabled, sel)]
  | selected sel => [(.selected, sel)]
  | .attribute sel => [(.attribute, sel)]
  | visual element exclude =>
    element.toList.map (Prod.mk .visualElement) ++ (exclude.filterMap regionSelector).map (Prod.mk .visualExclude)
  | request _ | event _ | requestSequence _ | responseSchema _ | clipboard | golden => []

def Assertion.endpointFields : Assertion → List (Check × EndpointMatch)
  | request match_ => [(.request, match_)]
  | event match_ => [(.event, match_)]
  | requestSequence matches_ => matches_.map (Prod.mk .requestSequence)
  | responseSchema match_ => [(.responseSchema, match_)]
  | _ => []

def Leaf.selectorFields : Leaf → List (Field × Selector)
  | tap sel => [(.tap, sel)]
  | doubleTap sel => [(.doubleTap, sel)]
  | longPress sel => [(.longPress, sel)]
  | type into => into.toList.map (Prod.mk .typeInto)
  | select into => [(.selectInto, into)]
  | clear into => [(.clearInto, into)]
  | delete into => [(.deleteInto, into)]
  | selectOption sel => [(.selectOption, sel)]
  | setPickerValue sel => [(.setPickerValue, sel)]
  | swipe on_ => on_.toList.map (Prod.mk .swipeOn)
  | drag on_ => [(.dragOn, on_)]
  | scroll to_ within => (.scrollTo, to_) :: within.toList.map (Prod.mk .scrollWithin)
  | pinch sel => [(.pinch, sel)]
  | rotate sel => [(.rotate, sel)]
  | wait (.for_ sel) => [(.waitFor, sel)]
  | wait (.gone sel) => [(.waitGone, sel)]
  | assert checks => checks.flatMap fun check => check.selectorFields.map fun (check, sel) => (.assert check, sel)
  | handleSystemAlert sel => sel.toList.map (Prod.mk .handleSystemAlert)
  | _ => []

/-- The URL that a step opens or calls is an exact one. -/
def Leaf.endpointFields : Leaf → List (Field × EndpointMatch)
  | navigate url => [(.navigate, { url := some url })]
  | http url => [(.http, { url := some url })]
  | wait (.request match_) => [(.waitRequest, match_)]
  | assert checks => checks.flatMap fun check => check.endpointFields.map fun (check, match_) => (.assert check, match_)
  | setMocks mocks => mocks.map (Prod.mk .setMocks)
  | _ => []

def Action.selectorFields : Action Step → List (Field × Selector)
  | leaf action => action.selectorFields
  | web within _ => [(.webWithin, within)]
  | if_ condition _ _ => condition.selectorFields.map fun (check, sel) => (.condition check, sel)
  | forEach sel _ => [(.forEachSel, sel)]
  | app _ | steps _ | group _ => []

def Action.endpointFields : Action Step → List (Field × EndpointMatch)
  | leaf action => action.endpointFields
  | if_ condition _ _ => condition.endpointFields.map fun (check, match_) => (.condition check, match_)
  | web _ _ | forEach _ _ | app _ | steps _ | group _ => []

def Step.selectorFields (st : Step) : List (Field × Selector) :=
  st.action.selectorFields ++ st.extract.map fun (_, sel) => (.extract, sel)

/-- A reference of a step, under the bodies that lead to it. -/
inductive Step.Refers (st : Step) (route : List Body) (field : Field) : Reference → Prop where
  | id {inner : Step} {sel : Selector} {rid : String} (hInside : Inside st route inner)
    (hField : (field, sel) ∈ inner.selectorFields) (hNames : Names sel rid) : Refers st route field ⟨.id, rid⟩
  | endpoint {inner : Step} {match_ : EndpointMatch} {literal : String} (hInside : Inside st route inner)
    (hField : (field, match_) ∈ inner.action.endpointFields) (hLiteral : literal ∈ match_.literals) :
    Refers st route field ⟨.endpoint, literal⟩

inductive Assertion.Refers (assertion : Assertion) (check : Check) : Reference → Prop where
  | id {sel : Selector} {rid : String} (hField : (check, sel) ∈ assertion.selectorFields) (hNames : Names sel rid) :
    Refers assertion check ⟨.id, rid⟩
  | endpoint {match_ : EndpointMatch} {literal : String} (hField : (check, match_) ∈ assertion.endpointFields)
    (hLiteral : literal ∈ match_.literals) : Refers assertion check ⟨.endpoint, literal⟩

inductive Phase where
  | setup
  | steps
  | interrupts
  | cleanup
  deriving DecidableEq

inductive Place where
  | step (phase : Phase) (route : List Body) (field : Field)
  | expect (check : Check)
  | interrupt (check : Check)

def Interrupt.steps : Interrupt → List Step
  | screen _ nested => nested
  | systemAlert | tipKit => []

def Interrupt.conditions : Interrupt → List Assertion
  | screen condition _ => [condition]
  | systemAlert | tipKit => []

def Scenario.phase (scenario : Scenario) : Phase → List Step
  | .setup => scenario.setup
  | .steps => scenario.steps
  | .interrupts => scenario.interrupts.flatMap Interrupt.steps
  | .cleanup => scenario.cleanup.flatMap CleanupRule.steps

/-- A reference of a scenario, at its place. -/
inductive Scenario.Refers (scenario : Scenario) : Place → Reference → Prop where
  | step {phase : Phase} {st : Step} {route : List Body} {field : Field} {ref : Reference}
    (hMem : st ∈ scenario.phase phase) (hRefers : st.Refers route field ref) : Refers scenario (.step phase route field) ref
  | expect {assertion : Assertion} {check : Check} {ref : Reference} (hMem : assertion ∈ scenario.expect)
    (hRefers : assertion.Refers check ref) : Refers scenario (.expect check) ref
  | interrupt {assertion : Assertion} {check : Check} {ref : Reference}
    (hMem : assertion ∈ scenario.interrupts.flatMap Interrupt.conditions) (hRefers : assertion.Refers check ref) :
    Refers scenario (.interrupt check) ref

/-! ## The places the walks visit -/

def Check.indexed : Check → Bool
  | exists_ | value | label | count | enabled | disabled | selected | .attribute | request | event | requestSequence => true
  | visualElement | visualExclude | responseSchema => false

def Field.indexed : Field → Bool
  | tap | doubleTap | longPress | typeInto | swipeOn | dragOn | scrollTo | scrollWithin | pinch | rotate | waitFor | waitGone
  | forEachSel | extract | waitRequest => true
  | selectInto | clearInto | deleteInto | selectOption | setPickerValue | handleSystemAlert | webWithin | navigate | http
  | setMocks => false
  | assert check | condition check => check.indexed

def Body.entered : Kind → Body → Bool
  | .id => Body.audited
  | .endpoint => Body.requested
  | .screen => fun _ => false

def Place.indexed (kind : Kind) : Place → Bool
  | step phase route field => phase = .steps && route.all (Body.entered kind) && field.indexed
  | expect check => check.indexed
  | interrupt _ => false

theorem mem_assertionSelectors {assertion : Assertion} {sel : Selector} :
    (∃ where_, (where_, sel) ∈ assertionSelectors assertion) ↔
      ∃ check, (check, sel) ∈ assertion.selectorFields ∧ check.indexed = true := by
  cases assertion with
  | visual element exclude => 
    constructor
    · rintro ⟨_, hMem⟩
      cases hMem
    · rintro ⟨check, hMem, hIndexed⟩
      obtain hMem | hMem := List.mem_append.mp hMem
      · obtain ⟨_, -, hPair⟩ := List.mem_map.mp hMem
        cases hPair
        cases hIndexed
      · obtain ⟨_, -, hPair⟩ := List.mem_map.mp hMem
        cases hPair
        cases hIndexed
  | _ => simp [assertionSelectors, Assertion.selectorFields, Check.indexed]

theorem mem_assertionRequests {assertion : Assertion} {literal : String} :
    (∃ request ∈ assertionRequests assertion, literal ∈ request.literals) ↔
      ∃ check request, (check, request) ∈ assertion.endpointFields ∧ literal ∈ request.literals ∧ check.indexed = true := by
  cases assertion with
  | event event =>
    have hPinned : literal ∈ event.literals → event.isPinned = true := by
      intro hLiteral
      obtain hUrl | hPath := List.mem_append.mp hLiteral
      · simp [EndpointMatch.isPinned, Option.mem_toList.mp hUrl]
      · simp [EndpointMatch.isPinned, Option.mem_toList.mp hPath]
    constructor
    · rintro ⟨request, hMem, hLiteral⟩
      rw [assertionRequests] at hMem
      split at hMem
      · obtain rfl := List.mem_singleton.mp hMem
        exact ⟨.event, request, List.mem_cons_self, hLiteral, rfl⟩
      · cases hMem
    · rintro ⟨check, request, hMem, hLiteral, -⟩
      cases List.mem_singleton.mp hMem
      rw [assertionRequests, if_pos (hPinned hLiteral)]
      exact ⟨event, List.mem_cons_self, hLiteral⟩
  | _ => simp [assertionRequests, Assertion.endpointFields, Check.indexed]

theorem mem_checksSelectors {checks : List Assertion} {sel : Selector} :
    (∃ where_, (where_, sel) ∈ checks.flatMap assertionSelectors) ↔
      ∃ assertion ∈ checks, ∃ check, (check, sel) ∈ assertion.selectorFields ∧ check.indexed = true := by
  simp only [List.mem_flatMap, ← mem_assertionSelectors]
  constructor
  · rintro ⟨where_, assertion, hMem, hSel⟩
    exact ⟨assertion, hMem, where_, hSel⟩
  · rintro ⟨assertion, hMem, where_, hSel⟩
    exact ⟨where_, assertion, hMem, hSel⟩

theorem mem_leafSelectors {leaf : Leaf} {sel : Selector} :
    (∃ where_, (where_, sel) ∈ leafSelectors leaf) ∨ (∃ where_, (where_, sel) ∈ (leafAssertions leaf).flatMap assertionSelectors) ↔
      ∃ field, (field, sel) ∈ leaf.selectorFields ∧ field.indexed = true := by
  cases leaf with
  | assert checks =>
    change (∃ where_, _ ∈ []) ∨ (∃ where_, (where_, sel) ∈ checks.flatMap assertionSelectors) ↔ _
    rw [mem_checksSelectors]
    simp [Leaf.selectorFields, Field.indexed, and_assoc]
  | wait wait => cases wait <;> simp [leafSelectors, leafAssertions, waitSelectors, Leaf.selectorFields, Field.indexed]
  | scroll to_ within =>
    simp [leafSelectors, leafAssertions, Leaf.selectorFields, or_and_right, exists_or, and_assoc, Field.indexed]
  | _ => simp [leafSelectors, leafAssertions, Leaf.selectorFields, Field.indexed]

theorem mem_controlSelectors {action : Action Step} (h : actionLeaf action = none) {sel : Selector} :
    (∃ where_, (where_, sel) ∈ controlSelectors action) ↔
      ∃ field, (field, sel) ∈ action.selectorFields ∧ field.indexed = true := by
  cases action with
  | leaf leaf => cases h
  | if_ condition then_ else_ =>
    rw [controlSelectors, mem_assertionSelectors]
    simp [Action.selectorFields, Field.indexed]
  | _ => simp [controlSelectors, Action.selectorFields, Field.indexed]

theorem mem_actionSelectors {action : Action Step} {sel : Selector} :
    (∃ where_, (where_, sel) ∈ (actionLeaf action).toList.flatMap leafSelectors) ∨
        (∃ where_, (where_, sel) ∈ ((actionLeaf action).toList.flatMap leafAssertions).flatMap assertionSelectors) ∨
          (∃ where_, (where_, sel) ∈ controlSelectors action) ↔
      ∃ field, (field, sel) ∈ action.selectorFields ∧ field.indexed = true := by
  cases hLeaf : actionLeaf action with
  | none => simp [mem_controlSelectors hLeaf]
  | some leaf =>
    obtain rfl : action = .leaf leaf := by
      cases action <;> cases hLeaf
      rfl
    have hFields := @mem_leafSelectors leaf sel
    simpa [controlSelectors, Action.selectorFields] using hFields

theorem mem_ownSelectors {st : Step} {sel : Selector} :
    (∃ where_, (where_, sel) ∈ ownSelectors st) ↔ ∃ field, (field, sel) ∈ st.selectorFields ∧ field.indexed = true := by
  have hExtract : (∃ where_, (where_, sel) ∈ st.extract.map fun (_, sel) => ("extract", sel)) ↔
      ∃ field, (field, sel) ∈ (st.extract.map fun (_, sel) => (Field.extract, sel)) ∧ field.indexed = true := by
    simp [Field.indexed]
  simp only [ownSelectors, Step.selectorFields, List.mem_append, exists_or, or_and_right, hExtract, ← mem_actionSelectors]
  simp only [or_assoc, or_left_comm, or_comm]

theorem mem_ownRequests {st : Step} {literal : String} :
    (∃ request ∈ ownRequests st, literal ∈ request.literals) ↔
      ∃ field request, (field, request) ∈ st.action.endpointFields ∧ literal ∈ request.literals ∧ field.indexed = true := by
  obtain ⟨action, extract, name⟩ := st
  cases action with
  | if_ condition then_ else_ =>
    change (∃ request ∈ assertionRequests condition, _) ↔ _
    rw [mem_assertionRequests, exists_comm]
    simp [Action.endpointFields, Field.indexed]
  | leaf leaf =>
    cases leaf with
    | assert checks =>
      have hChecks : (∃ request ∈ checks.flatMap assertionRequests, literal ∈ request.literals) ↔
          ∃ assertion ∈ checks, ∃ request ∈ assertionRequests assertion, literal ∈ request.literals := by
        simp only [List.mem_flatMap]
        constructor
        · rintro ⟨request, ⟨assertion, hMem, hRequest⟩, hLiteral⟩
          exact ⟨assertion, hMem, request, hRequest, hLiteral⟩
        · rintro ⟨assertion, hMem, request, hRequest, hLiteral⟩
          exact ⟨request, ⟨assertion, hMem, hRequest⟩, hLiteral⟩
      change (∃ request ∈ checks.flatMap assertionRequests, _) ↔ _
      rw [hChecks]
      simp only [mem_assertionRequests, Action.endpointFields, Leaf.endpointFields, List.mem_flatMap, List.mem_map]
      constructor
      · rintro ⟨assertion, hMem, check, request, hField, hLiteral, hIndexed⟩
        exact ⟨.assert check, request, ⟨assertion, hMem, (check, request), hField, rfl⟩, hLiteral, hIndexed⟩
      · rintro ⟨_, _, ⟨assertion, hMem, ⟨check, request⟩, hField, hPair⟩, hLiteral, hIndexed⟩
        cases hPair
        exact ⟨assertion, hMem, check, request, hField, hLiteral, hIndexed⟩
    | wait wait => cases wait <;> simp [ownRequests, Action.endpointFields, Leaf.endpointFields, Field.indexed]
    | _ => simp [ownRequests, Action.endpointFields, Leaf.endpointFields, Field.indexed]
  | _ => simp [ownRequests, Action.endpointFields]

theorem mem_withNested {where_ rid : String} {sel : Selector} :
    (∃ located ∈ withNested where_ sel, rid ∈ selectorMatchIds located.2) ↔ Names sel rid := by
  induction where_, sel using withNested.induct with
  | case1 where_ id idMatches label labelMatches traits value index =>
    rw [withNested]
    constructor
    · rintro ⟨located, hMem, hId⟩
      obtain rfl := List.mem_singleton.mp hMem
      cases id with
      | none => cases hId
      | some ids => exact .own rfl hId
    · intro hNames
      cases hNames with
      | own hId hMem =>
        refine ⟨_, List.mem_cons_self, ?_⟩
        obtain rfl : id = some _ := hId
        exact hMem
      | scope hWithin _ => cases hWithin
  | case2 where_ id idMatches label labelMatches traits value within index ih =>
    rw [withNested]
    constructor
    · rintro ⟨located, hMem, hId⟩
      obtain rfl | hMem := List.mem_cons.mp hMem
      · cases id with
        | none => cases hId
        | some ids => exact .own rfl hId
      · exact .scope rfl (ih.mp ⟨located, hMem, hId⟩)
    · intro hNames
      cases hNames with
      | own hId hMem =>
        refine ⟨_, List.mem_cons_self, ?_⟩
        obtain rfl : id = some _ := hId
        exact hMem
      | scope hWithin hNames =>
        cases hWithin
        obtain ⟨located, hMem, hId⟩ := ih.mpr hNames
        exact ⟨located, List.mem_cons_of_mem _ hMem, hId⟩

theorem mem_nestedIds {found : List (String × Selector)} {rid : String} :
    (rid ∈ (found.flatMap fun (where_, sel) => withNested where_ sel).flatMap fun located => selectorMatchIds located.2) ↔
      ∃ sel, (∃ where_, (where_, sel) ∈ found) ∧ Names sel rid := by
  simp only [List.mem_flatMap]
  constructor
  · rintro ⟨located, ⟨⟨where_, sel⟩, hFound, hMem⟩, hId⟩
    exact ⟨sel, ⟨where_, hFound⟩, mem_withNested.mp ⟨located, hMem, hId⟩⟩
  · rintro ⟨sel, ⟨where_, hFound⟩, hNames⟩
    obtain ⟨located, hMem, hId⟩ := mem_withNested.mpr hNames
    exact ⟨located, ⟨(where_, sel), hFound, hMem⟩, hId⟩

theorem mem_stepMatchableIds {st : Step} {rid : String} :
    rid ∈ stepMatchableIds st ↔ ∃ route field, st.Refers route field ⟨.id, rid⟩ ∧
      route.all Body.audited = true ∧ field.indexed = true := by
  rw [stepMatchableIds, mem_nestedIds]
  constructor
  · rintro ⟨sel, ⟨where_, hFound⟩, hNames⟩
    obtain ⟨route, inner, hInside, hRoute, hOwn⟩ := (mem_walk _ _).mp hFound
    obtain ⟨field, hField, hIndexed⟩ := mem_ownSelectors.mp ⟨where_, hOwn⟩
    exact ⟨route, field, .id hInside hField hNames, List.all_eq_true.mpr hRoute, hIndexed⟩
  · rintro ⟨route, field, hRefers, hRoute, hIndexed⟩
    cases hRefers with
    | id hInside hField hNames =>
      obtain ⟨where_, hOwn⟩ := mem_ownSelectors.mpr ⟨field, hField, hIndexed⟩
      exact ⟨_, ⟨where_, (mem_walk _ _).mpr ⟨route, _, hInside, List.all_eq_true.mp hRoute, hOwn⟩⟩, hNames⟩

theorem mem_stepRequests {st : Step} {literal : String} :
    (∃ request ∈ stepRequests st, literal ∈ request.literals) ↔ ∃ route field, st.Refers route field ⟨.endpoint, literal⟩ ∧
      route.all Body.requested = true ∧ field.indexed = true := by
  constructor
  · rintro ⟨request, hMem, hLiteral⟩
    obtain ⟨route, inner, hInside, hRoute, hOwn⟩ := (mem_walk _ _).mp hMem
    obtain ⟨field, request, hField, hLiteral, hIndexed⟩ := mem_ownRequests.mp ⟨request, hOwn, hLiteral⟩
    exact ⟨route, field, .endpoint hInside hField hLiteral, List.all_eq_true.mpr hRoute, hIndexed⟩
  · rintro ⟨route, field, hRefers, hRoute, hIndexed⟩
    cases hRefers with
    | endpoint hInside hField hLiteral =>
      obtain ⟨request, hOwn, hLiteral⟩ := mem_ownRequests.mpr ⟨field, _, hField, hLiteral, hIndexed⟩
      exact ⟨request, (mem_walk _ _).mpr ⟨route, _, hInside, List.all_eq_true.mp hRoute, hOwn⟩, hLiteral⟩

theorem mem_requestLiterals {requests : List EndpointMatch} {literal : String} :
    literal ∈ requestLiterals requests ↔ (∃ request ∈ requests, literal ∈ request.literals) ∧ literal ≠ "" := by
  rw [requestLiterals, List.mem_filter, List.mem_flatMap, decide_eq_true_eq]

/-- Held by a reference of a scenario at a place that the walks visit. An empty URL or path is passed over. -/
def Scenario.Indexes (scenario : Scenario) (ref : Reference) : Prop :=
  (∃ place, scenario.Refers place ref ∧ place.indexed ref.kind = true) ∧ (ref.kind = .endpoint → ref.value ≠ "")

theorem mem_scenarioMatchableIds {scenario : Scenario} {rid : String} :
    rid ∈ scenarioMatchableIds scenario ↔ (∃ st ∈ scenario.steps, rid ∈ stepMatchableIds st) ∨
      ∃ assertion ∈ scenario.expect, ∃ sel, (∃ where_, (where_, sel) ∈ assertionSelectors assertion) ∧ Names sel rid := by
  rw [scenarioMatchableIds, locatedSelectors, List.flatMap_append, List.mem_append, List.flatMap_assoc,
    List.flatMap_assoc, List.mem_flatMap, List.mem_flatMap]
  simp only [mem_nestedIds, stepMatchableIds]

/-- The ids of a scenario are those it refers to at the places the audit visits. -/
theorem scenarioMatchableIds_iff {scenario : Scenario} {rid : String} :
    rid ∈ scenarioMatchableIds scenario ↔ scenario.Indexes ⟨.id, rid⟩ := by
  rw [mem_scenarioMatchableIds]
  constructor
  · rintro (⟨st, hMem, hId⟩ | ⟨assertion, hMem, sel, hFound, hNames⟩)
    · obtain ⟨route, field, hRefers, hRoute, hIndexed⟩ := mem_stepMatchableIds.mp hId
      refine ⟨⟨.step .steps route field, .step hMem hRefers, ?_⟩, nofun⟩
      simp only [Place.indexed, Body.entered, hRoute, hIndexed, decide_true, Bool.and_self]
    · obtain ⟨check, hField, hIndexed⟩ := mem_assertionSelectors.mp hFound
      exact ⟨⟨.expect check, .expect hMem (.id hField hNames), hIndexed⟩, nofun⟩
  · rintro ⟨⟨place, hRefers, hIndexed⟩, -⟩
    cases hRefers with
    | step hMem hRefers =>
      simp only [Place.indexed, Bool.and_eq_true, decide_eq_true_eq] at hIndexed
      obtain ⟨⟨rfl, hRoute⟩, hIndexed⟩ := hIndexed
      exact .inl ⟨_, hMem, mem_stepMatchableIds.mpr ⟨_, _, hRefers, hRoute, hIndexed⟩⟩
    | expect hMem hRefers =>
      cases hRefers with
      | id hField hNames => exact .inr ⟨_, hMem, _, mem_assertionSelectors.mpr ⟨_, hField, hIndexed⟩, hNames⟩
    | interrupt _ _ => cases hIndexed

/-- The literals of a scenario's requests are those it refers to at the places the coverage map visits. -/
theorem requestLiterals_iff {scenario : Scenario} {literal : String} :
    literal ∈ requestLiterals (referencedRequests scenario) ↔ scenario.Indexes ⟨.endpoint, literal⟩ := by
  rw [mem_requestLiterals, referencedRequests]
  constructor
  · rintro ⟨⟨request, hMem, hLiteral⟩, hNonempty⟩
    refine ⟨?_, fun _ => hNonempty⟩
    obtain hMem | hMem := List.mem_append.mp hMem
    · obtain ⟨st, hStep, hMem⟩ := List.mem_flatMap.mp hMem
      obtain ⟨route, field, hRefers, hRoute, hIndexed⟩ := mem_stepRequests.mp ⟨request, hMem, hLiteral⟩
      refine ⟨.step .steps route field, .step hStep hRefers, ?_⟩
      simp only [Place.indexed, Body.entered, hRoute, hIndexed, decide_true, Bool.and_self]
    · obtain ⟨assertion, hAssertion, hMem⟩ := List.mem_flatMap.mp hMem
      obtain ⟨check, match_, hField, hLiteral, hIndexed⟩ := mem_assertionRequests.mp ⟨request, hMem, hLiteral⟩
      exact ⟨.expect check, .expect hAssertion (.endpoint hField hLiteral), hIndexed⟩
  · rintro ⟨⟨place, hRefers, hIndexed⟩, hNonempty⟩
    refine ⟨?_, hNonempty rfl⟩
    cases hRefers with
    | step hMem hRefers =>
      simp only [Place.indexed, Bool.and_eq_true, decide_eq_true_eq] at hIndexed
      obtain ⟨⟨rfl, hRoute⟩, hIndexed⟩ := hIndexed
      obtain ⟨request, hRequest, hLiteral⟩ := mem_stepRequests.mpr ⟨_, _, hRefers, hRoute, hIndexed⟩
      exact ⟨request, List.mem_append_left _ (List.mem_flatMap.mpr ⟨_, hMem, hRequest⟩), hLiteral⟩
    | expect hMem hRefers =>
      cases hRefers with
      | endpoint hField hLiteral =>
        obtain ⟨request, hRequest, hLiteral⟩ := mem_assertionRequests.mpr ⟨_, _, hField, hLiteral, hIndexed⟩
        exact ⟨request, List.mem_append_right _ (List.mem_flatMap.mpr ⟨_, hMem, hRequest⟩), hLiteral⟩
    | interrupt _ _ => cases hIndexed

end Bajutsu.Analysis
