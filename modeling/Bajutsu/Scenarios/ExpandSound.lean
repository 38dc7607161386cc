import Bajutsu.Scenarios.ExpandSplice

/-!
# Expansion is a splice, and halts

Each call of the expander is for the steps of a body, which are smaller, or for those of a component, under a longer
stack. Both are bounded, so every expansion comes to its end, and what it returns is a splice of what it was given.
-/

namespace Bajutsu.Scenarios

open PyValue Fuelled

variable {M : Models} {R : Resolver M} {maxDepth : Int}

theorem mergeTarget_own {caller own : Option String} {path : List Link} {what : Link} {target : Option String}
    (h : mergeTarget caller own path what = .ok target) {name : String} (hOwn : own = some name) : target = some name := by
  subst hOwn
  cases caller with
  | none =>
    cases h
    rfl
  | some caller =>
    rw [mergeTarget] at h
    split at h
    · rename_i hSame
      cases h
      rw [hSame]
    · cases h

theorem stamp_kept {st stamped : Step M} {caller : Option String} {path : List Link}
    (h : stamp st caller path = .ok stamped) : stamped.action = st.action ∧ Kept st stamped := by
  rw [stamp] at h
  split at h
  · cases h
    exact ⟨rfl, ⟨rfl, rfl, rfl, rfl, fun _ h => h⟩⟩
  · cases hMerge : mergeTarget caller st.target path (.step st.name) with
    | error refusal =>
      rw [hMerge] at h
      cases h
    | ok target =>
      rw [hMerge] at h
      cases h
      exact ⟨rfl, ⟨rfl, rfl, rfl, rfl, fun _ hOwn => mergeTarget_own hMerge hOwn⟩⟩

theorem instantiate_ok {scope : R.Scope} {component : String} {with_ : List (String × String)}
    {substituted : List (Step M)} (h : instantiate R scope component with_ = .ok substituted) :
    ∃ comp, R.resolve scope component = .ok comp ∧
      interpSteps (with_.map fun (key, value) => ("params." ++ key, value)) comp.steps = some substituted := by
  rw [instantiate] at h
  cases hResolve : R.resolve scope component with
  | error refusal =>
    rw [hResolve] at h
    cases h
  | ok comp =>
    refine ⟨comp, rfl, ?_⟩
    rw [hResolve] at h
    simp only [bind, Except.bind] at h
    split at h
    · cases h
    · split at h
      · cases h
      · split at h
        · cases h
        · rename_i interpolated hInterp
          split at h
          · cases h
          · cases h
            exact hInterp

/-- What expands a list gives a splice of it. -/
def Splices (R : Resolver M) (expand : Context R.Scope → List (Step M) → Run (List (Step M))) : Prop :=
  ∀ ctx steps count out count', Returns (expand ctx steps) count out count' → Splice R ctx.scope steps out

variable {expander : Context R.Scope → List (Step M) → Run (List (Step M))} {ctx : Context R.Scope} {st : Step M}
  {front steps out : List (Step M)} {count count' : Nat}

theorem keepStep_splice (hExpand : Splices R expander) (h : Returns (keepStep R expander ctx st) count front count')
    (hForm : ∀ component with_ name inner, st.action ≠ .use component with_ ∧ st.action ≠ .group name inner ∧
      st.action ≠ .steps inner)
    (hRest : Splice R ctx.scope steps out) : Splice R ctx.scope (st :: steps) (front ++ out) := by
  rw [keepStep] at h
  obtain ⟨stamped, mid, hStamp, h⟩ := returns_bind h
  obtain ⟨action, mid', hBodies, h⟩ := returns_bind h
  obtain ⟨hStamp, -⟩ := returns_settle hStamp
  obtain ⟨hAction, hKept⟩ := stamp_kept hStamp
  obtain ⟨kept, rfl, hKeptAction, hSame⟩ : ∃ kept, front = [kept] ∧ kept.action = action ∧ Kept st kept := by
    split at h
    · obtain ⟨rfl, -⟩ := returns_pure h
      exact ⟨_, rfl, rfl, ⟨hKept.capture, hKept.extract, hKept.name, hKept.from_, hKept.target⟩⟩
    · obtain ⟨rfl, -⟩ := returns_pure h
      exact ⟨_, rfl, rfl, ⟨hKept.capture, hKept.extract, hKept.name, hKept.from_, hKept.target⟩⟩
  rw [hAction] at hBodies
  cases hCase : st.action with
  | leaf field model =>
    rw [hCase] at hBodies
    obtain ⟨rfl, -⟩ := returns_pure hBodies
    exact .leaf hCase hKeptAction hSame hRest
  | use component with_ => exact absurd hCase (hForm component with_ "" []).1
  | group name inner => exact absurd hCase (hForm "" [] name inner).2.1
  | steps inner => exact absurd hCase (hForm "" [] "" inner).2.2
  | if_ condition then_ else_ =>
    rw [hCase] at hBodies
    obtain ⟨then', mid'', hThen, hBodies⟩ := returns_bind hBodies
    have hThen' := hExpand _ _ _ _ _ hThen
    cases else_ with
    | none =>
      obtain ⟨rfl, -⟩ := returns_pure hBodies
      exact .ifThen hCase hThen' hKeptAction hSame hRest
    | some else_ =>
      obtain ⟨else', mid''', hElse, hBodies⟩ := returns_bind hBodies
      have hElse' := hExpand _ _ _ _ _ hElse
      obtain ⟨rfl, -⟩ := returns_pure hBodies
      exact .ifElse hCase hThen' hElse' hKeptAction hSame hRest
  | forEach sel as_ body =>
    rw [hCase] at hBodies
    obtain ⟨body', mid'', hBody, hBodies⟩ := returns_bind hBodies
    have hBody' := hExpand _ _ _ _ _ hBody
    obtain ⟨rfl, -⟩ := returns_pure hBodies
    exact .forEach hCase hBody' hKeptAction hSame hRest
  | web within body =>
    rw [hCase] at hBodies
    obtain ⟨body', mid'', hBody, hBodies⟩ := returns_bind hBodies
    have hBody' := hExpand _ _ _ _ _ hBody
    obtain ⟨rfl, -⟩ := returns_pure hBodies
    exact .web hCase hBody' hKeptAction hSame hRest
  | app bundleId body =>
    rw [hCase] at hBodies
    obtain ⟨body', mid'', hBody, hBodies⟩ := returns_bind hBodies
    have hBody' := hExpand _ _ _ _ _ hBody
    obtain ⟨rfl, -⟩ := returns_pure hBodies
    exact .app hCase hBody' hKeptAction hSame hRest

theorem expandStep_splice (hExpand : Splices R expander) (h : Returns (expandStep R expander ctx st) count front count')
    (hRest : Splice R ctx.scope steps out) : Splice R ctx.scope (st :: steps) (front ++ out) := by
  cases hCase : st.action with
  | group name inner =>
    simp only [expandStep, hCase] at h
    obtain ⟨-, _, -, h⟩ := returns_bind h
    obtain ⟨target, _, -, h⟩ := returns_bind h
    obtain ⟨id, _, -, h⟩ := returns_bind h
    have hInner := hExpand _ _ _ _ _ h
    exact .group hCase hInner hRest
  | steps inner =>
    simp only [expandStep, hCase] at h
    split at h
    · cases (returns_settle h).1
    · obtain ⟨-, _, -, h⟩ := returns_bind h
      obtain ⟨target, _, -, h⟩ := returns_bind h
      have hInner := hExpand _ _ _ _ _ h
      exact .steps hCase hInner hRest
  | use component with_ =>
    simp only [expandStep, hCase] at h
    split at h
    · cases (returns_settle h).1
    · obtain ⟨substituted, _, hSubstituted, h⟩ := returns_bind h
      obtain ⟨target, _, -, h⟩ := returns_bind h
      obtain ⟨comp, hResolve, hInterp⟩ := instantiate_ok (returns_settle hSubstituted).1
      have hInner := hExpand _ _ _ _ _ h
      exact .use hCase hResolve hInterp hInner hRest
  | _ =>
    simp only [expandStep, hCase] at h
    exact keepStep_splice hExpand h (fun _ _ _ _ => by simp [hCase]) hRest

theorem splice_flatten {fronts : List (List (Step M))}
    (h : List.Forall₂ (fun st front => ∃ before after, Returns (expandStep R expander ctx st) before front after) steps fronts)
    (hExpand : Splices R expander) : Splice R ctx.scope steps fronts.flatten := by
  induction h with
  | nil => exact .nil _
  | cons hStep _ ih =>
    obtain ⟨before, after, hStep⟩ := hStep
    exact expandStep_splice hExpand hStep ih

theorem expand_splices (fuel : Nat) : Splices R (expand R maxDepth fuel) := by
  induction fuel with
  | zero =>
    intro ctx steps count out count' h
    exact absurd h not_returns_outOfFuel
  | succ fuel ih =>
    intro ctx steps count out count' h
    rw [expand] at h
    split at h
    · cases (returns_settle h).1
    · obtain ⟨fronts, mid, hFronts, h⟩ := returns_bind h
      obtain ⟨rfl, -⟩ := returns_pure h
      exact splice_flatten (returns_mapM hFronts) ih

/-! ## Target groups -/

mutual
theorem targetGroups_plain (insideWeb : Bool) (steps : List (Step M)) (h : PlainSteps steps) :
    TargetGroups.expandSteps none insideWeb steps = .ok steps := by
  cases steps with
  | nil => rfl
  | cons st steps =>
    rw [TargetGroups.expandSteps, targetGroups_step insideWeb st h.1, targetGroups_plain insideWeb steps h.2]
    rfl

theorem targetGroups_step (insideWeb : Bool) (st : Step M) (h : st.Plain) :
    TargetGroups.expandStep none insideWeb st = .ok [st] := by
  obtain ⟨action, capture, extract, name, from_, target, reportGroup, reportGroupId⟩ := st
  have hAction := targetGroups_action insideWeb action h
  cases action with
  | steps inner => exact h.elim
  | _ =>
    rw [TargetGroups.expandStep]
    · simp only [hAction]
      rfl
    · rintro _ ⟨⟩

theorem targetGroups_action (insideWeb : Bool) (action : Action M (Step M)) (h : PlainAction action) :
    TargetGroups.expandNested insideWeb action = .ok action := by
  cases action with
  | if_ condition then_ else_ =>
    rw [TargetGroups.expandNested, targetGroups_plain insideWeb then_ h.1, targetGroups_else insideWeb else_ h.2]
    rfl
  | forEach sel as_ body =>
    rw [TargetGroups.expandNested, targetGroups_plain insideWeb body h]
    rfl
  | web within body =>
    rw [TargetGroups.expandNested, targetGroups_plain true body h]
    rfl
  | app bundleId body =>
    rw [TargetGroups.expandNested, targetGroups_plain true body h]
    rfl
  | _ => rfl

theorem targetGroups_else (insideWeb : Bool) (else_ : Option (List (Step M))) (h : PlainElse else_) :
    TargetGroups.expandElse insideWeb else_ = .ok else_ := by
  cases else_ with
  | none => rfl
  | some steps =>
    rw [TargetGroups.expandElse, targetGroups_plain insideWeb steps h]
    rfl
end

end Bajutsu.Scenarios
