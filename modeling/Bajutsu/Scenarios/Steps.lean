import Bajutsu.Scenarios.Interp

/-!
# Steps

A step is one action with its modifiers. The forms `use`, `group` and `steps` are written by an author and never run;
`if`, `forEach`, `web` and `app` hold bodies of steps, and every other action is a leaf.
-/

namespace Bajutsu.Scenarios

open PyValue

inductive LeafAction where
  | tap | tapPoint | doubleTap | longPress | type | select | clear | delete | copy | selectOption | selectPhotos
  | setPickerValue | swipe | drag | scroll | back | navigate | pinch | rotate | wait | sleep | assert | relaunch
  | setLocation | push | http | totp | generate | eval | email | clearKeychain | clearClipboard | setClipboard
  | setMocks | background | foreground | installApp | setPrimaryTarget | overrideStatusBar | clearStatusBar
  | handleSystemAlert | manual
  deriving DecidableEq

/-- A model that a document's values are validated into, and dumped from. -/
structure Model (α : Type) where
  dump : α → Val
  validate : Val → Option α

/-- The models that steps hold. -/
structure Models where
  Leaf : LeafAction → Type
  leaf : (action : LeafAction) → Model (Leaf action)
  Condition : Type
  condition : Model Condition
  Sel : Type
  sel : Model Sel
  Extract : Type
  extract : Model Extract

inductive Action (M : Models) (S : Type) where
  | leaf (action : LeafAction) (model : M.Leaf action)
  | use (component : String) (with_ : List (String × String))
  | group (name : String) (steps : List S)
  | steps (steps : List S)
  | if_ (condition : M.Condition) (then_ : List S) (else_ : Option (List S))
  | forEach (sel : M.Sel) (as_ : String) (steps : List S)
  | web (within : M.Sel) (steps : List S)
  | app (bundleId : String) (steps : List S)

structure Step (M : Models) where
  action : Action M (Step M)
  capture : Option (List String)
  extract : Option (List (String × M.Extract))
  name : Option String
  from_ : Option String
  target : Option String
  reportGroup : Option String
  reportGroupId : Option Nat

structure Component (M : Models) where
  params : List String
  steps : List (Step M)

variable {M : Models}

/-! ## What a step is valid by -/

def captureKinds : List String :=
  ["screenshot", "elements", "actionLog", "deviceLog", "network", "video", "appTrace", "rawTree"]

def captureMods : List String := ["before", "after", "around", "onError"]

/-- `_validate_capture`, on one of its tokens. -/
def captureValid (capture : String) : Bool :=
  let kind := capture.toList.takeWhile (· ≠ '.')
  let mod := (capture.toList.dropWhile (· ≠ '.')).drop 1
  captureKinds.contains (String.ofList kind) && (mod.isEmpty || captureMods.contains (String.ofList mod))

def nameSafe (name : String) : Bool :=
  !name.toList.contains '/' && !name.toList.contains '\\' && name ≠ "." && name ≠ ".."

def Step.isTargetGroup (st : Step M) : Bool :=
  match st.action with
  | .steps _ => true
  | _ => false

def Step.isSetPrimaryTarget (st : Step M) : Bool :=
  match st.action with
  | .leaf .setPrimaryTarget _ => true
  | _ => false

/-- None of the modifiers but `target`. -/
def Step.unmodified (st : Step M) : Bool :=
  st.capture.isNone && st.extract.isNone && st.name.isNone && st.from_.isNone && st.reportGroup.isNone &&
    st.reportGroupId.isNone

/-- The validators of `Step` and of the model of its action. -/
def Step.valid (st : Step M) : Bool :=
  st.capture.all (·.all captureValid) && st.name.all nameSafe &&
    match st.action with
    | .leaf .setPrimaryTarget _ => st.target.isNone
    | .leaf .. => true
    | .use .. => st.unmodified
    | .steps steps =>
      st.target.any (· ≠ "") && !steps.isEmpty && st.unmodified &&
        steps.all fun child => !child.isTargetGroup && child.target.isNone
    | .group name steps => name ≠ "" && !steps.isEmpty && st.capture.isNone && st.extract.isNone
    | .if_ .. | .forEach .. | .web .. | .app .. => st.capture.isNone && st.extract.isNone

/-! ## Substitution -/

def Model.interp {α : Type} (model : Model α) (bindings : List (String × String)) (x : α) : Option α :=
  model.validate (interpolate bindings (model.dump x))

def interpEach {α : Type} (model : Model α) (bindings : List (String × String)) :
    List (String × α) → Option (List (String × α))
  | [] => some []
  | (key, x) :: items => do
    let x ← model.interp bindings x
    let items ← interpEach model bindings items
    return (key, x) :: items

mutual
/-- A step's dump with its texts interpolated, validated again. -/
def Step.interp (bindings : List (String × String)) : Step M → Option (Step M)
  | ⟨action, capture, extract, name, from_, target, reportGroup, reportGroupId⟩ => do
    let action ← interpAction bindings action
    let extract ← match extract with
      | none => some none
      | some items => some <$> interpEach M.extract bindings items
    let st : Step M := ⟨action, capture.map (·.map (interpStr bindings)), extract, name.map (interpStr bindings),
      from_.map (interpStr bindings), target.map (interpStr bindings), reportGroup.map (interpStr bindings), reportGroupId⟩
    if st.valid then some st else none

def interpAction (bindings : List (String × String)) : Action M (Step M) → Option (Action M (Step M))
  | .leaf action model => .leaf action <$> (M.leaf action).interp bindings model
  | .use component with_ =>
    some (.use (interpStr bindings component) (with_.map fun (key, value) => (key, interpStr bindings value)))
  | .group name steps => .group (interpStr bindings name) <$> interpSteps bindings steps
  | .steps steps => .steps <$> interpSteps bindings steps
  | .if_ condition then_ else_ => do
    let condition ← M.condition.interp bindings condition
    let then_ ← interpSteps bindings then_
    let else_ ← interpElse bindings else_
    return .if_ condition then_ else_
  | .forEach sel as_ steps => do
    let sel ← M.sel.interp bindings sel
    let steps ← interpSteps bindings steps
    return .forEach sel (interpStr bindings as_) steps
  | .web within steps => do
    let within ← M.sel.interp bindings within
    let steps ← interpSteps bindings steps
    return .web within steps
  | .app bundleId steps => .app (interpStr bindings bundleId) <$> interpSteps bindings steps

def interpElse (bindings : List (String × String)) : Option (List (Step M)) → Option (Option (List (Step M)))
  | none => some none
  | some steps => some <$> interpSteps bindings steps

/-- `_interp_steps`; a step that is refused is a `ValidationError`. -/
def interpSteps (bindings : List (String × String)) : List (Step M) → Option (List (Step M))
  | [] => some []
  | st :: steps => do
    let st ← st.interp bindings
    let steps ← interpSteps bindings steps
    return st :: steps
end

/-! ## The tokens of a dump -/

def optionTokens (text : Option String) : List String := text.elim [] tokensOf

def Step.modifierTokens (st : Step M) : List String :=
  (st.capture.getD []).flatMap tokensOf ++ (st.extract.getD []).flatMap (fun item => findTokens (M.extract.dump item.2)) ++
    optionTokens st.name ++ optionTokens st.from_ ++ optionTokens st.target ++ optionTokens st.reportGroup

mutual
def Step.tokens : Step M → List String
  | ⟨action, capture, extract, name, from_, target, reportGroup, reportGroupId⟩ =>
    actionTokens action ++
      (Step.mk action capture extract name from_ target reportGroup reportGroupId : Step M).modifierTokens

def actionTokens : Action M (Step M) → List String
  | .leaf action model => findTokens ((M.leaf action).dump model)
  | .use component with_ => tokensOf component ++ with_.flatMap fun item => tokensOf item.2
  | .group name steps => tokensOf name ++ stepsTokens steps
  | .steps steps => stepsTokens steps
  | .if_ condition then_ else_ => findTokens (M.condition.dump condition) ++ stepsTokens then_ ++ elseTokens else_
  | .forEach sel as_ steps => findTokens (M.sel.dump sel) ++ tokensOf as_ ++ stepsTokens steps
  | .web within steps => findTokens (M.sel.dump within) ++ stepsTokens steps
  | .app bundleId steps => tokensOf bundleId ++ stepsTokens steps

def elseTokens : Option (List (Step M)) → List String
  | none => []
  | some steps => stepsTokens steps

/-- `find_tokens` of the steps' dumps. -/
def stepsTokens : List (Step M) → List String
  | [] => []
  | st :: steps => st.tokens ++ stepsTokens steps
end

end Bajutsu.Scenarios
