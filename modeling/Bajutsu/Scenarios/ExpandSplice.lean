import Bajutsu.Scenarios.ExpandComponents

/-!
# What expansion gives

`Splice` says what a list of steps stands for: each authoring form for its own steps in its place, a `use` for its
component's with the call's arguments, and every other step for itself with its bodies spliced. Whatever expansion
returns is a splice, and a splice has no authoring form at any depth.
-/

namespace Bajutsu.Scenarios

open PyValue Fuelled

variable {M : Models} {R : Resolver M} {maxDepth : Int}

mutual
/-- Neither the step nor a step of its bodies is an authoring form. -/
def Step.Plain : Step M → Prop
  | ⟨action, _, _, _, _, _, _, _⟩ => PlainAction action

def PlainAction : Action M (Step M) → Prop
  | .leaf .. => True
  | .use .. | .group .. | .steps _ => False
  | .if_ _ then_ else_ => PlainSteps then_ ∧ PlainElse else_
  | .forEach _ _ steps | .web _ steps | .app _ steps => PlainSteps steps

def PlainElse : Option (List (Step M)) → Prop
  | none => True
  | some steps => PlainSteps steps

def PlainSteps : List (Step M) → Prop
  | [] => True
  | st :: steps => st.Plain ∧ PlainSteps steps
end

abbrev Leaf (M : Models) := (action : LeafAction) × M.Leaf action

mutual
/-- The leaf actions in the order they stand in, the bodies' among them. -/
def Step.leaves : Step M → List (Leaf M)
  | ⟨action, _, _, _, _, _, _, _⟩ => actionLeaves action

def actionLeaves : Action M (Step M) → List (Leaf M)
  | .leaf action model => [⟨action, model⟩]
  | .use .. => []
  | .if_ _ then_ else_ => leaves then_ ++ elseLeaves else_
  | .group _ steps | .steps steps | .forEach _ _ steps | .web _ steps | .app _ steps => leaves steps

def elseLeaves : Option (List (Step M)) → List (Leaf M)
  | none => []
  | some steps => leaves steps

def leaves : List (Step M) → List (Leaf M)
  | [] => []
  | st :: steps => st.leaves ++ leaves steps
end

/-- The step is kept with its own modifiers; only a target or a group that it had not may come to it. -/
structure Kept (st kept : Step M) : Prop where
  capture : kept.capture = st.capture
  extract : kept.extract = st.extract
  name : kept.name = st.name
  from_ : kept.from_ = st.from_
  target : ∀ target, st.target = some target → kept.target = some target

inductive Splice (R : Resolver M) : R.Scope → List (Step M) → List (Step M) → Prop where
  | nil (scope) : Splice R scope [] []
  | leaf {scope st kept steps out action model} (hAction : st.action = .leaf action model)
      (hKept : kept.action = .leaf action model) (hSame : Kept st kept) (hRest : Splice R scope steps out) :
      Splice R scope (st :: steps) (kept :: out)
  | ifThen {scope st kept steps out condition then_ then'} (hAction : st.action = .if_ condition then_ none)
      (hThen : Splice R scope then_ then') (hKept : kept.action = .if_ condition then' none) (hSame : Kept st kept)
      (hRest : Splice R scope steps out) : Splice R scope (st :: steps) (kept :: out)
  | ifElse {scope st kept steps out condition then_ else_ then' else'}
      (hAction : st.action = .if_ condition then_ (some else_)) (hThen : Splice R scope then_ then')
      (hElse : Splice R scope else_ else') (hKept : kept.action = .if_ condition then' (some else'))
      (hSame : Kept st kept) (hRest : Splice R scope steps out) : Splice R scope (st :: steps) (kept :: out)
  | forEach {scope st kept steps out sel as_ body body'} (hAction : st.action = .forEach sel as_ body)
      (hBody : Splice R scope body body') (hKept : kept.action = .forEach sel as_ body') (hSame : Kept st kept)
      (hRest : Splice R scope steps out) : Splice R scope (st :: steps) (kept :: out)
  | web {scope st kept steps out within body body'} (hAction : st.action = .web within body)
      (hBody : Splice R scope body body') (hKept : kept.action = .web within body') (hSame : Kept st kept)
      (hRest : Splice R scope steps out) : Splice R scope (st :: steps) (kept :: out)
  | app {scope st kept steps out bundleId body body'} (hAction : st.action = .app bundleId body)
      (hBody : Splice R scope body body') (hKept : kept.action = .app bundleId body') (hSame : Kept st kept)
      (hRest : Splice R scope steps out) : Splice R scope (st :: steps) (kept :: out)
  | group {scope st steps front out name inner} (hAction : st.action = .group name inner)
      (hInner : Splice R scope inner front) (hRest : Splice R scope steps out) :
      Splice R scope (st :: steps) (front ++ out)
  | steps {scope st steps front out inner} (hAction : st.action = .steps inner)
      (hInner : Splice R scope inner front) (hRest : Splice R scope steps out) :
      Splice R scope (st :: steps) (front ++ out)
  | use {scope st steps front out component with_ comp substituted} (hAction : st.action = .use component with_)
      (hResolve : R.resolve scope component = .ok comp)
      (hInterp : interpSteps (with_.map fun (key, value) => ("params." ++ key, value)) comp.steps = some substituted)
      (hInner : Splice R (R.scopeFor scope component) substituted front) (hRest : Splice R scope steps out) :
      Splice R scope (st :: steps) (front ++ out)

theorem plainSteps_append {front out : List (Step M)} (hFront : PlainSteps front) (hOut : PlainSteps out) :
    PlainSteps (front ++ out) := by
  induction front with
  | nil => exact hOut
  | cons st front ih => exact ⟨hFront.1, ih hFront.2⟩

theorem leaves_append (front out : List (Step M)) : leaves (front ++ out) = leaves front ++ leaves out := by
  induction front with
  | nil => rfl
  | cons st front ih =>
    rw [List.cons_append, leaves, leaves, ih, List.append_assoc]

theorem plain_iff (st : Step M) : st.Plain ↔ PlainAction st.action := by
  cases st
  rw [Step.Plain]

theorem leaves_eq (st : Step M) : st.leaves = actionLeaves st.action := by
  cases st
  rw [Step.leaves]

theorem Splice.plain {scope : R.Scope} {steps out : List (Step M)} (h : Splice R scope steps out) : PlainSteps out := by
  induction h with
  | nil => exact trivial
  | leaf _ hKept _ _ ih =>
    refine ⟨(plain_iff _).mpr ?_, ih⟩
    rw [hKept]
    exact trivial
  | ifThen _ _ hKept _ _ ihThen ih =>
    refine ⟨(plain_iff _).mpr ?_, ih⟩
    rw [hKept]
    exact ⟨ihThen, trivial⟩
  | ifElse _ _ _ hKept _ _ ihThen ihElse ih =>
    refine ⟨(plain_iff _).mpr ?_, ih⟩
    rw [hKept]
    exact ⟨ihThen, ihElse⟩
  | forEach _ _ hKept _ _ ihBody ih | web _ _ hKept _ _ ihBody ih | app _ _ hKept _ _ ihBody ih =>
    refine ⟨(plain_iff _).mpr ?_, ih⟩
    rw [hKept]
    exact ihBody
  | group _ _ _ ihInner ih | steps _ _ _ ihInner ih | use _ _ _ _ _ ihInner ih => exact plainSteps_append ihInner ih

/-- What a step stands for, by its action. -/
def StandsFor (R : Resolver M) (scope : R.Scope) (st : Step M) (front : List (Step M)) : Prop :=
  match st.action with
  | .leaf action model => ∃ kept, front = [kept] ∧ kept.action = .leaf action model
  | .if_ condition then_ none =>
    ∃ kept then', front = [kept] ∧ Splice R scope then_ then' ∧ kept.action = .if_ condition then' none
  | .if_ condition then_ (some else_) => ∃ kept then' else', front = [kept] ∧ Splice R scope then_ then' ∧
      Splice R scope else_ else' ∧ kept.action = .if_ condition then' (some else')
  | .forEach sel as_ body => ∃ kept body', front = [kept] ∧ Splice R scope body body' ∧ kept.action = .forEach sel as_ body'
  | .web within body => ∃ kept body', front = [kept] ∧ Splice R scope body body' ∧ kept.action = .web within body'
  | .app bundleId body => ∃ kept body', front = [kept] ∧ Splice R scope body body' ∧ kept.action = .app bundleId body'
  | .group _ inner | .steps inner => Splice R scope inner front
  | .use component with_ => ∃ comp substituted, R.resolve scope component = .ok comp ∧
      interpSteps (with_.map fun (key, value) => ("params." ++ key, value)) comp.steps = some substituted ∧
      Splice R (R.scopeFor scope component) substituted front

theorem Splice.cons_cases {scope : R.Scope} {st : Step M} {steps out : List (Step M)}
    (h : Splice R scope (st :: steps) out) :
    ∃ front rest, out = front ++ rest ∧ Splice R scope steps rest ∧ StandsFor R scope st front := by
  cases h with
  | @leaf _ _ kept _ out _ _ hAction hKept _ hRest =>
    refine ⟨[kept], out, rfl, hRest, ?_⟩
    rw [StandsFor, hAction]
    exact ⟨kept, rfl, hKept⟩
  | @ifThen _ _ kept _ out _ _ then' hAction hThen hKept _ hRest =>
    refine ⟨[kept], out, rfl, hRest, ?_⟩
    rw [StandsFor, hAction]
    exact ⟨kept, then', rfl, hThen, hKept⟩
  | @ifElse _ _ kept _ out _ _ _ then' else' hAction hThen hElse hKept _ hRest =>
    refine ⟨[kept], out, rfl, hRest, ?_⟩
    rw [StandsFor, hAction]
    exact ⟨kept, then', else', rfl, hThen, hElse, hKept⟩
  | @forEach _ _ kept _ out _ _ _ body' hAction hBody hKept _ hRest =>
    refine ⟨[kept], out, rfl, hRest, ?_⟩
    rw [StandsFor, hAction]
    exact ⟨kept, body', rfl, hBody, hKept⟩
  | @web _ _ kept _ out _ _ body' hAction hBody hKept _ hRest =>
    refine ⟨[kept], out, rfl, hRest, ?_⟩
    rw [StandsFor, hAction]
    exact ⟨kept, body', rfl, hBody, hKept⟩
  | @app _ _ kept _ out _ _ body' hAction hBody hKept _ hRest =>
    refine ⟨[kept], out, rfl, hRest, ?_⟩
    rw [StandsFor, hAction]
    exact ⟨kept, body', rfl, hBody, hKept⟩
  | @group _ _ _ front out _ _ hAction hInner hRest =>
    refine ⟨front, out, rfl, hRest, ?_⟩
    rw [StandsFor, hAction]
    exact hInner
  | @steps _ _ _ front out _ hAction hInner hRest =>
    refine ⟨front, out, rfl, hRest, ?_⟩
    rw [StandsFor, hAction]
    exact hInner
  | @use _ _ _ front out _ _ comp substituted hAction hResolve hInterp hInner hRest =>
    refine ⟨front, out, rfl, hRest, ?_⟩
    rw [StandsFor, hAction]
    exact ⟨comp, substituted, hResolve, hInterp, hInner⟩

theorem leaves_kept {kept : Step M} {action : Action M (Step M)} {out : List (Step M)} (h : kept.action = action) :
    leaves (kept :: out) = actionLeaves action ++ leaves out := by
  rw [leaves, leaves_eq, h]

/-- The leaf actions that a list of steps stands for are those of any of its splices. -/
theorem Splice.leaves_unique {scope : R.Scope} {steps out out' : List (Step M)} (h : Splice R scope steps out)
    (h' : Splice R scope steps out') : leaves out' = leaves out := by
  induction h generalizing out' with
  | nil =>
    cases h'
    rfl
  | @leaf scope st kept steps out action model hAction hKept _ _ ih =>
    obtain ⟨front, rest, rfl, hRest, hStands⟩ := h'.cons_cases
    rw [StandsFor, hAction] at hStands
    obtain ⟨kept', rfl, hKept'⟩ := hStands
    rw [List.singleton_append, leaves_kept hKept', leaves_kept hKept, ih hRest]
  | ifThen hAction _ hKept _ _ ihThen ih =>
    obtain ⟨front, rest, rfl, hRest, hStands⟩ := h'.cons_cases
    rw [StandsFor, hAction] at hStands
    obtain ⟨kept', then', rfl, hThen, hKept'⟩ := hStands
    rw [List.singleton_append, leaves_kept hKept', leaves_kept hKept, ih hRest, actionLeaves, actionLeaves, ihThen hThen]
  | ifElse hAction _ _ hKept _ _ ihThen ihElse ih =>
    obtain ⟨front, rest, rfl, hRest, hStands⟩ := h'.cons_cases
    rw [StandsFor, hAction] at hStands
    obtain ⟨kept', then', else', rfl, hThen, hElse, hKept'⟩ := hStands
    rw [List.singleton_append, leaves_kept hKept', leaves_kept hKept, ih hRest, actionLeaves, actionLeaves, elseLeaves,
      elseLeaves, ihThen hThen, ihElse hElse]
  | forEach hAction _ hKept _ _ ihBody ih =>
    obtain ⟨front, rest, rfl, hRest, hStands⟩ := h'.cons_cases
    rw [StandsFor, hAction] at hStands
    obtain ⟨kept', body', rfl, hBody, hKept'⟩ := hStands
    rw [List.singleton_append, leaves_kept hKept', leaves_kept hKept, ih hRest, actionLeaves, actionLeaves, ihBody hBody]
  | web hAction _ hKept _ _ ihBody ih | app hAction _ hKept _ _ ihBody ih =>
    obtain ⟨front, rest, rfl, hRest, hStands⟩ := h'.cons_cases
    rw [StandsFor, hAction] at hStands
    obtain ⟨kept', body', rfl, hBody, hKept'⟩ := hStands
    rw [List.singleton_append, leaves_kept hKept', leaves_kept hKept, ih hRest, actionLeaves, actionLeaves, ihBody hBody]
  | group hAction _ _ ihInner ih | steps hAction _ _ ihInner ih =>
    obtain ⟨front, rest, rfl, hRest, hStands⟩ := h'.cons_cases
    rw [StandsFor, hAction] at hStands
    rw [leaves_append, leaves_append, ihInner hStands, ih hRest]
  | use hAction hResolve hInterp _ _ ihInner ih =>
    obtain ⟨front, rest, rfl, hRest, hStands⟩ := h'.cons_cases
    rw [StandsFor, hAction] at hStands
    obtain ⟨comp, substituted, hResolve', hInterp', hInner⟩ := hStands
    cases hResolve.symm.trans hResolve'
    cases hInterp.symm.trans hInterp'
    rw [leaves_append, leaves_append, ihInner hInner, ih hRest]

end Bajutsu.Scenarios
