import Mathlib.Data.Rat.Defs
import Mathlib.Tactic.Common

/-!
# The cleanup phase

The rules whose `on` is the verdict run in declaration order. The verdict is fixed before the first one, a failing rule
adds its reason to the failure, and a cancellation ends the phase: with a failure of its own, or silently once the time
a cancelled run has for its teardown is spent.
-/

namespace Bajutsu.Orchestrator.Cleanup

inductive On where
  | always
  | success
  | failure
  deriving DecidableEq

structure CleanupRule (Step : Type) where
  on : On
  steps : List Step

/-- Where a phase reads its cancellation: the run's own source, or a deadline. -/
inductive CancelSource where
  | run
  | deadline (time : ℚ)
  deriving DecidableEq

/-- How the steps of a rule end: without a failure, with one, or by raising `RunCancelled`. -/
inductive Ending where
  | passed
  | failed (reason : String)
  | cancelled
  deriving DecidableEq

/-- The clock, the run's cancel source and the step runner, on a state of any kind. -/
structure Environment (σ Step : Type) where
  now : σ → ℚ × σ
  cancelled : σ → Bool × σ
  runSteps : List Step → CancelSource → σ → Ending × σ
  teardownSeconds : ℚ

def cancelledFailure : String := "cancelled"

/-- The run's failure, the verdict, and the rules that ran with how each ended. -/
structure Dispatched (Step : Type) where
  failure : Option String
  verdict : On
  ran : List (CleanupRule Step × Ending)

variable {σ Step : Type}

def CleanupRule.selectedBy (verdict : On) (rule : CleanupRule Step) : Bool := rule.on = .always || rule.on = verdict

def verdictOf (failure : Option String) : On := if failure = none then .success else .failure

/-- The failure after an entry's own one. -/
def compose (failure : Option String) (reason : String) : String :=
  match failure with
  | none => "cleanup: " ++ reason
  | some failure => failure ++ "; cleanup: " ++ reason

/-- The failure after a cancellation during the teardown of a run that was not cancelled. -/
def cutShort : Option String → String
  | none => cancelledFailure
  | some failure => failure ++ "; cleanup: " ++ cancelledFailure

section Rules

variable (env : Environment σ Step) (source : CancelSource) (bounded : Bool) (verdict : On)

def runRules : List (CleanupRule Step) → Option String → σ → Option String × List (CleanupRule Step × Ending)
  | [], failure, _ => (failure, [])
  | rule :: rules, failure, st =>
    if rule.selectedBy verdict then
      match env.runSteps rule.steps source st with
      | (.passed, st) =>
        let (failure, ran) := runRules rules failure st
        (failure, (rule, .passed) :: ran)
      | (.failed reason, st) =>
        let (failure, ran) := runRules rules (some (compose failure reason)) st
        (failure, (rule, .failed reason) :: ran)
      | (.cancelled, _) => (if bounded then failure else some (cutShort failure), [(rule, .cancelled)])
    else runRules rules failure st

end Rules

/-- Whether the run was cancelled before the phase: its failure is only read when its cancel source says no. -/
def bounded (env : Environment σ Step) (failure : Option String) (st : σ) : Bool :=
  (env.cancelled st).1 || failure.any fun text => cancelledFailure.toList.isPrefixOf text.toList

def dispatchCleanup (env : Environment σ Step) (rules : List (CleanupRule Step)) (failure : Option String) (st : σ) :
    Dispatched Step :=
  let verdict := verdictOf failure
  let st' := (env.cancelled st).2
  let (result, ran) :=
    if bounded env failure st then
      let (time, st') := env.now st'
      runRules env (.deadline (time + env.teardownSeconds)) true verdict rules failure st'
    else runRules env .run false verdict rules failure st'
  ⟨result, verdict, ran⟩

/-- The cleanup phase of `run_scenario`. -/
def cleanupPhase (env : Environment σ Step) (rules : List (CleanupRule Step)) (failure : Option String) (st : σ) :
    Option String :=
  if rules.isEmpty then failure else (dispatchCleanup env rules failure st).failure

/-- The rules run are the selected ones in their order up to a cancellation, the failure is none exactly when none came
in and no rule failed or was cut short by a cancellation of the phase's own, and it starts with the one that came in. -/
structure Lawful (selected : List (CleanupRule Step)) (bounded : Bool) (failure : Option String)
    (ran : List (CleanupRule Step × Ending)) (result : Option String) : Prop where
  ordered : ran.map Prod.fst <+: selected
  whole : (∀ entry ∈ ran, entry.2 ≠ .cancelled) → ran.map Prod.fst = selected
  last : ∀ earlier entry later, ran = earlier ++ entry :: later → entry.2 = .cancelled → later = []
  passing : result = none ↔ failure = none ∧ ∀ entry ∈ ran, entry.2 = .passed ∨ entry.2 = .cancelled ∧ bounded
  leads : ∀ text, failure = some text → ∃ more, result = some (text ++ more)

namespace Lawful

variable {selected : List (CleanupRule Step)} {bounded : Bool} {failure result : Option String}
  {ran : List (CleanupRule Step × Ending)} {rule : CleanupRule Step}

theorem nothing : Lawful ([] : List (CleanupRule Step)) bounded failure [] failure where
  ordered := List.prefix_refl []
  whole _ := rfl
  last := by simp
  passing := by simp
  leads text h := ⟨"", by rw [h, String.append_empty]⟩

/-- A rule that ran to its end, in front of what the later ones make of the failure it leaves. -/
theorem cons {ending : Ending} {after : Option String} (h : Lawful selected bounded after ran result)
    (hEnding : ending ≠ .cancelled) (hNone : after = none ↔ failure = none ∧ ending = .passed)
    (hLeads : ∀ text, failure = some text → ∃ more, after = some (text ++ more)) :
    Lawful (rule :: selected) bounded failure ((rule, ending) :: ran) result := by
  constructor
  · rw [List.map_cons, List.prefix_cons_inj]
    exact h.ordered
  · intro hAll
    rw [List.map_cons, h.whole fun entry hMem => hAll entry (List.mem_cons_of_mem _ hMem)]
  · intro earlier entry later hSplit hCancelled
    obtain ⟨-, hHere⟩ | ⟨rest, -, hLater⟩ := List.cons_eq_append_iff.mp hSplit
    · rw [(List.cons.inj hHere).1] at hCancelled
      exact absurd hCancelled hEnding
    · exact h.last rest entry later hLater hCancelled
  · rw [h.passing, hNone, List.forall_mem_cons, and_assoc]
    simp [hEnding]
  · intro text hText
    obtain ⟨more, hMore⟩ := hLeads text hText
    obtain ⟨rest, hRest⟩ := h.leads _ hMore
    exact ⟨more ++ rest, by rw [hRest, String.append_assoc]⟩

theorem cancelled (selected : List (CleanupRule Step)) (bounded : Bool) (failure : Option String)
    (rule : CleanupRule Step) :
    Lawful (rule :: selected) bounded failure [(rule, .cancelled)]
      (if bounded then failure else some (cutShort failure)) := by
  constructor
  · exact ⟨selected, rfl⟩
  · intro hAll
    exact absurd rfl (hAll _ List.mem_cons_self)
  · intro earlier entry later hSplit _
    obtain ⟨-, hHere⟩ | ⟨rest, -, hLater⟩ := List.cons_eq_append_iff.mp hSplit
    · exact (List.cons.inj hHere).2
    · simp at hLater
  · cases bounded with
    | true => simp
    | false => simp
  · rintro text rfl
    cases bounded with
    | true => exact ⟨"", by simp⟩
    | false => exact ⟨"; cleanup: " ++ cancelledFailure, by simp [cutShort, String.append_assoc]⟩

end Lawful

theorem runRules_lawful (env : Environment σ Step) (source : CancelSource) (bounded : Bool) (verdict : On)
    (rules : List (CleanupRule Step)) (failure : Option String) (st : σ) :
    Lawful (rules.filter (CleanupRule.selectedBy verdict)) bounded failure
      (runRules env source bounded verdict rules failure st).2
      (runRules env source bounded verdict rules failure st).1 := by
  induction rules generalizing failure st with
  | nil => exact .nothing
  | cons rule rules ih =>
    rw [runRules]
    by_cases hSelected : rule.selectedBy verdict
    · rw [if_pos hSelected, List.filter_cons_of_pos hSelected]
      obtain ⟨ending, st'⟩ := env.runSteps rule.steps source st
      cases ending with
      | passed =>
        refine Lawful.cons (ih failure st') (by decide) (by simp) ?_
        exact fun text hText => ⟨"", by rw [hText, String.append_empty]⟩
      | failed reason =>
        refine Lawful.cons (ih (some (compose failure reason)) st') (by simp) (by simp) ?_
        rintro text rfl
        exact ⟨"; cleanup: " ++ reason, by simp [compose, String.append_assoc]⟩
      | cancelled => exact .cancelled _ bounded failure rule
    · rw [if_neg hSelected, List.filter_cons_of_neg hSelected]
      exact ih failure st

/-- The cleanup phase runs what the verdict selects, up to a cancellation, and its failure starts with the run's. -/
theorem dispatch_lawful (env : Environment σ Step) (rules : List (CleanupRule Step)) (failure : Option String) (st : σ) :
    (dispatchCleanup env rules failure st).verdict = verdictOf failure ∧
      Lawful (rules.filter (CleanupRule.selectedBy (verdictOf failure))) (bounded env failure st) failure
        (dispatchCleanup env rules failure st).ran (dispatchCleanup env rules failure st).failure := by
  refine ⟨rfl, ?_⟩
  rw [dispatchCleanup]
  cases hBounded : bounded env failure st with
  | true => exact runRules_lawful env _ true _ rules failure _
  | false => exact runRules_lawful env _ false _ rules failure _

theorem cleanupPhase_eq (env : Environment σ Step) (rules : List (CleanupRule Step)) (failure : Option String) (st : σ) :
    cleanupPhase env rules failure st = (dispatchCleanup env rules failure st).failure := by
  rw [cleanupPhase]
  split
  · rename_i hEmpty
    rw [List.isEmpty_iff.mp hEmpty, dispatchCleanup]
    cases bounded env failure st with
    | true => rfl
    | false => rfl
  · rfl

/-- A run cancelled after its last step keeps its passing verdict although a rule was cut short. -/
theorem teardown_spent_passes :
    ¬∀ (env : Environment Unit String) (rules : List (CleanupRule String)) (failure : Option String),
      (dispatchCleanup env rules failure ()).failure = none ↔
        failure = none ∧ (∀ entry ∈ (dispatchCleanup env rules failure ()).ran, entry.2 = .passed) ∧
          ∀ entry ∈ (dispatchCleanup env rules failure ()).ran, entry.2 = .cancelled → bounded env failure () := by
  intro h
  have hPasses := (h ⟨fun _ => (0, ()), fun _ => (true, ()), fun _ _ _ => (.cancelled, ()), 1⟩
    [⟨.always, ["delete the record"]⟩] none).mp rfl
  exact absurd (hPasses.2.1 _ List.mem_cons_self) nofun

end Bajutsu.Orchestrator.Cleanup
