import Bajutsu.Lib.Fuelled
import Bajutsu.Scenarios.Steps
import Mathlib.Data.List.Sort

/-!
# Expansion

`use`, `group` and `steps` are replaced by the steps they stand for, at every depth, before a scenario runs. The
recursion has fuel: a computation without enough of it has no result, and the depth of `use` is bounded by the code
itself.
-/

namespace Bajutsu.Scenarios

open PyValue Fuelled

inductive Body where
  | if_
  | forEach
  | web
  | app
  deriving DecidableEq

/-- A link of the chain that a caller's target came through. -/
inductive Link where
  | group (name : String)
  | targetGroup (target : Option String)
  | use (component : String)
  | step (name : Option String)

/-- A `ValueError`. -/
inductive Refusal where
  | nestingTooDeep (maxDepth : Int) (stack : List String)
  | groupInBody (name : String) (body : Body)
  | groupInGroup (name outer : String)
  | targetConflict (path : List Link) (own caller : String)
  | setPrimaryTargetInGroup (path : List Link)
  | targetGroupInBlock
  | cycle (chain : List String)
  | missingParams (component : String) (params : List String)
  | unknownParams (component : String) (params : List String)
  | undeclaredParams (component : String) (tokens : List String)
  | invalidStep
  | other (message : String)

/-- What resolves a component's reference, and the scope that the component's own steps resolve theirs in; a plain
function brings the scope it is called in. -/
structure Resolver (M : Models) where
  Scope : Type
  start : Scope
  resolve : Scope → String → Except Refusal (Component M)
  scopeFor : Scope → String → Scope

variable {M : Models}

/-- The context of a list of steps: `levelTarget` is stamped on its steps, and `bodyTarget` on those of a body below it. -/
structure Context (Scope : Type) where
  stack : List String
  scope : Scope
  groupCtx : Option String
  groupId : Option Nat
  levelTarget : Option String
  bodyTarget : Option String
  path : List Link
  body : Option Body

/-- The counter of group ids is shared by every expansion. -/
abbrev Run (α : Type) := Calc Nat Refusal α

def nextGroupId : Run Nat := modifyGet fun count => (count, count + 1)

def checkGroupPosition (name : String) (body : Option Body) (groupCtx : Option String) : Except Refusal Unit :=
  match body, groupCtx with
  | some body, _ => .error (.groupInBody name body)
  | none, some outer => .error (.groupInGroup name outer)
  | none, none => .ok ()

def mergeTarget (caller own : Option String) (path : List Link) (what : Link) : Except Refusal (Option String) :=
  match caller, own with
  | none, _ => .ok own
  | some caller, none => .ok (some caller)
  | some caller, some own => if own = caller then .ok (some caller) else .error (.targetConflict (path ++ [what]) own caller)

def refuseSetPrimaryTarget (steps : List (Step M)) (path : List Link) : Except Refusal Unit :=
  if steps.any Step.isSetPrimaryTarget then .error (.setPrimaryTargetInGroup path) else .ok ()

/-- The step with its caller's target, where it has none of its own. -/
def stamp (st : Step M) (caller : Option String) (path : List Link) : Except Refusal (Step M) :=
  if st.isSetPrimaryTarget then .ok st
  else do
    let target ← mergeTarget caller st.target path (.step st.name)
    return { st with target }

section Expander

variable (R : Resolver M) (maxDepth : Int)

/-- The names of these that are not among those, in order. -/
def without (names others : List String) : List String :=
  ((names.filter fun name => name ∉ others).eraseDups).insertionSort (· ≤ ·)

/-- A component's steps with the call's arguments, which must be the component's own parameters. -/
def instantiate (scope : R.Scope) (component : String) (with_ : List (String × String)) :
    Except Refusal (List (Step M)) := do
  let comp ← R.resolve scope component
  let missing := without comp.params (with_.map Prod.fst)
  let unknown := without (with_.map Prod.fst) comp.params
  if missing ≠ [] then .error (.missingParams component missing)
  else if unknown ≠ [] then .error (.unknownParams component unknown)
  else
    match interpSteps (with_.map fun (key, value) => ("params." ++ key, value)) comp.steps with
    | none => .error .invalidStep
    | some substituted =>
      let residual := (stepsTokens substituted).filter fun token => token.startsWith "params."
      if residual ≠ [] then .error (.undeclaredParams component (without residual []))
      else .ok substituted

/-- The bodies of a step that is kept; a `web` or `app` block drops the caller's target. -/
def expandBodies (expandBody : List (Step M) → Body → Option String → Run (List (Step M))) (bodyTarget : Option String) :
    Action M (Step M) → Run (Action M (Step M))
  | .if_ condition then_ else_ => do
    let then_ ← expandBody then_ .if_ bodyTarget
    match else_ with
    | none => return .if_ condition then_ none
    | some else_ =>
      let else_ ← expandBody else_ .if_ bodyTarget
      return .if_ condition then_ (some else_)
  | .forEach sel as_ steps => do
    let steps ← expandBody steps .forEach bodyTarget
    return .forEach sel as_ steps
  | .web within steps => do
    let steps ← expandBody steps .web none
    return .web within steps
  | .app bundleId steps => do
    let steps ← expandBody steps .app none
    return .app bundleId steps
  | action => return action

def Context.inBlock {Scope : Type} (ctx : Context Scope) : Bool := ctx.body = some .web || ctx.body = some .app

/-- A body is in no group, and stays in the `web` or `app` block that its step is in. -/
def Context.forBody {Scope : Type} (ctx : Context Scope) (kind : Body) (target : Option String) : Context Scope where
  stack := ctx.stack
  scope := ctx.scope
  groupCtx := none
  groupId := none
  levelTarget := target
  bodyTarget := target
  path := ctx.path
  body := if ctx.inBlock then ctx.body else some kind

/-- A step that is no authoring form, with its bodies expanded. -/
def keepStep (expand : Context R.Scope → List (Step M) → Run (List (Step M))) (ctx : Context R.Scope) (st : Step M) :
    Run (List (Step M)) := do
  let stamped ← settle (stamp st ctx.levelTarget ctx.path)
  let action ← expandBodies (fun steps kind target => expand (ctx.forBody kind target) steps) ctx.bodyTarget stamped.action
  match ctx.groupCtx with
  | none => return [{ stamped with action }]
  | some group => return [{ stamped with action, reportGroup := some group, reportGroupId := ctx.groupId }]

/-- One step, given what expands a list of steps in a context. -/
def expandStep (expand : Context R.Scope → List (Step M) → Run (List (Step M))) (ctx : Context R.Scope) (st : Step M) :
    Run (List (Step M)) :=
  match st.action with
  | .group name steps => do
    settle (checkGroupPosition name ctx.body ctx.groupCtx)
    let target ← settle (mergeTarget ctx.levelTarget st.target ctx.path (.group name))
    let id ← nextGroupId
    let path := if target.isSome then ctx.path ++ [.group name] else ctx.path
    expand ⟨ctx.stack, ctx.scope, some name, some id, target, target, path, none⟩ steps
  | .steps steps => do
    if ctx.inBlock then settle (.error .targetGroupInBlock)
    else
      settle (refuseSetPrimaryTarget steps (ctx.path ++ [.targetGroup st.target]))
      let target ← settle (mergeTarget ctx.levelTarget st.target ctx.path (.targetGroup st.target))
      expand { ctx with levelTarget := target, path := ctx.path ++ [.targetGroup st.target] } steps
  | .use component with_ => do
    if component ∈ ctx.stack then settle (.error (.cycle (ctx.stack ++ [component])))
    else
      let substituted ← settle (instantiate R ctx.scope component with_)
      let target ← settle (mergeTarget ctx.levelTarget st.target ctx.path (.use component))
      expand { ctx with
        stack := ctx.stack ++ [component]
        scope := R.scopeFor ctx.scope component
        levelTarget := target
        bodyTarget := target
        path := ctx.path ++ [.use component] } substituted
  | _ => keepStep R expand ctx st

/-- `_step_expander`. -/
def expand : Nat → Context R.Scope → List (Step M) → Run (List (Step M))
  | 0, _, _ => outOfFuel
  | fuel + 1, ctx, steps =>
    if maxDepth < ctx.stack.length then settle (.error (.nestingTooDeep maxDepth ctx.stack))
    else do
      let out ← steps.mapM (expandStep R (expand fuel) ctx)
      return out.flatten

def Resolver.outset : Context R.Scope := ⟨[], R.start, none, none, none, none, [], none⟩

def expandSteps (fuel : Nat) (steps : List (Step M)) : Run (List (Step M)) := expand R maxDepth fuel R.outset steps

end Expander

end Bajutsu.Scenarios
