import Bajutsu.Orchestrator.AppCrashLog

/-!
# How completely crashes are classified

Every entry of a log stands in a fixed relation to the log before it, which each handler keeps. A failed outcome is
recorded right after its driver was asked, unless a latch forbids it; one handler records its outcome without classifying
it. Where the failed outcomes of that handler had nothing to be classified, and only there, the log is classified.
-/

namespace Bajutsu.Orchestrator.AppCrash

open Effect History

section Entries

variable {D : Type}

/-- Whether a latch forbids to ask. -/
def Suppressed (lease : Bool) (log : List (Event D)) : Prop := RelaunchFailed log ∨ Unconfirmed lease log

def JustProbed (log : List (Event D)) (driver : D) (answer : Option String) : Prop :=
  ∃ earlier, log = earlier ++ [.probed driver answer]

/-- The driver of a failed step was asked, if no latch forbade it, and a crash that was confirmed is in its reason. -/
structure Accounted (lease : Bool) (log : List (Event D)) (driver : D) (o : StepOutcome) : Prop where
  probed : Suppressed lease log ∨ (confirmedSignal log).isSome = true ∨ ∃ answer, JustProbed log driver answer
  noted : ∀ signal, confirmedSignal log = some signal → contains o.reason signal = true

/-- Classifying the outcome would neither ask a driver nor change the reason. -/
def Idle (lease : Bool) (log : List (Event D)) (o : StepOutcome) : Prop :=
  (Suppressed lease log ∨ (confirmedSignal log).isSome = true) ∧
    ∀ signal, confirmedSignal log = some signal → contains o.reason signal = true

/-- Nobody waits for what a driver answered. -/
def Rested (log : List (Event D)) : Prop := ∀ driver, ¬JustProbed log driver none

/-- What each entry of a log is to the log before it. -/
def Lawful (lease : Bool) (log : List (Event D)) : Event D → Prop
  | .probed _ _ => confirmedSignal log = none ∧ ¬Suppressed lease log
  | .recorded none o => o.appCrashed = false
  | .recorded (some driver) o =>
    (o.appCrashed = true → ∃ earlier signal, log = earlier ++ [.probed driver (some signal)] ∧
      confirmedSignal earlier = none ∧ ¬Suppressed lease earlier) ∧
    (o.ok = false → o.action ≠ relaunch → if o.action = .app then Rested log else Accounted lease log driver o)

def CrashedOnce (log : List (Event D)) : Prop := log.countP Event.crashed ≤ 1

/-- Crashes are classified completely, at most once, and never where a latch forbids it. -/
structure Classified (lease : Bool) (log : List (Event D)) : Prop where
  once : CrashedOnce log
  guarded : ∀ before e after, log = before ++ e :: after → e.crashed = true → ¬Suppressed lease before
  accounted : ∀ before driver o after, log = before ++ .recorded (some driver) o :: after →
    o.ok = false → o.action ≠ relaunch → Accounted lease before driver o

/-- Whenever an `app` step failed, classifying its outcome would have changed nothing. -/
def AppsIdle (lease : Bool) (log : List (Event D)) : Prop :=
  ∀ before driver o after, log = before ++ .recorded (some driver) o :: after →
    o.ok = false → o.action = .app → Idle lease before o

end Entries

/-! ## Lawful logs -/

section Logs

variable {D : Type} {lease : Bool} {log : List (Event D)} {driver : D} {o : StepOutcome}

theorem rested_nil : Rested ([] : List (Event D)) := by
  rintro driver ⟨earlier, hEq⟩
  exact absurd hEq.symm (List.append_ne_nil_of_right_ne_nil _ (List.cons_ne_nil _ _))

theorem rested_recorded {reached : Option D} : Rested (log ++ [.recorded reached o]) := by
  rintro driver ⟨earlier, hEq⟩
  exact nomatch (List.append_inj' hEq rfl).2

theorem rested_answered {signal : String} : Rested (log ++ [.probed driver (some signal)]) := by
  rintro driver ⟨earlier, hEq⟩
  exact nomatch (List.append_inj' hEq rfl).2

theorem Suppressed.of_probed {answer : Option String} (h : Suppressed lease (log ++ [.probed driver answer])) :
    Suppressed lease log := by
  rcases h with h | h
  · exact .inl ((relaunchFailed_snoc.mp h).resolve_right id)
  · exact .inr ((unconfirmed_snoc.mp h).resolve_left id).1

theorem confirmedSignal_answered {signal : String} :
    (confirmedSignal (log ++ [.probed driver (some signal)])).isSome = true := by
  rw [confirmedSignal_snoc]
  cases confirmedSignal log <;> rfl

theorem confirmedSignal_mono {later : List (Event D)} (h : confirmedSignal (log ++ later) = none) :
    confirmedSignal log = none := by
  rw [confirmedSignal, List.findSome?_append] at h
  exact (Option.or_eq_none_iff.mp h).1

theorem accounted_iff_idle (hRested : Rested log) : Accounted lease log driver o ↔ Idle lease log o := by
  constructor
  · rintro ⟨hSuppressed | hConfirmed | ⟨answer, hProbed⟩, hNoted⟩
    · exact ⟨.inl hSuppressed, hNoted⟩
    · exact ⟨.inr hConfirmed, hNoted⟩
    · cases answer with
      | none => exact absurd hProbed (hRested driver)
      | some signal =>
        obtain ⟨earlier, rfl⟩ := hProbed
        exact ⟨.inr confirmedSignal_answered, hNoted⟩
  · rintro ⟨hSuppressed | hConfirmed, hNoted⟩
    · exact ⟨.inl hSuppressed, hNoted⟩
    · exact ⟨.inr (.inl hConfirmed), hNoted⟩

theorem Lawful.of_crashed {e : Event D} (h : Lawful lease log e) (hCrashed : e.crashed = true) :
    ∃ earlier driver signal, log = earlier ++ [.probed driver (some signal)] ∧ confirmedSignal earlier = none ∧
      ¬Suppressed lease earlier := by
  cases e with
  | probed driver answer => exact nomatch hCrashed
  | recorded reached o =>
    cases reached with
    | none => exact absurd (h.symm.trans hCrashed) nofun
    | some driver =>
      obtain ⟨earlier, signal, hEq⟩ := h.1 hCrashed
      exact ⟨earlier, driver, signal, hEq⟩

/-- A crash that is classified was answered when no crash was confirmed: there is no other before. -/
theorem crashedOnce_of_lawful (h : Throughout (Lawful lease) log) : CrashedOnce log := by
  apply Throughout.countP_le_one
  intro before e after hEq hCrashed first hMem
  obtain ⟨earlier, driver, signal, rfl, hNone, -⟩ := (h before e after hEq).of_crashed hCrashed
  rcases List.mem_append.mp hMem with hMem | hMem
  · rw [Bool.eq_false_iff]
    intro hFirst
    obtain ⟨front, back, rfl⟩ := List.append_of_mem hMem
    have hLog : log = front ++ first :: (back ++ .probed driver (some signal) :: e :: after) := by
      rw [hEq]
      simp
    obtain ⟨start, driver', signal', rfl, -, -⟩ := (h front first _ hLog).of_crashed hFirst
    have hConfirmed : (confirmedSignal (start ++ [.probed driver' (some signal')])).isSome = true :=
      confirmedSignal_answered
    rw [confirmedSignal_mono hNone] at hConfirmed
    exact nomatch hConfirmed
  · rw [List.mem_singleton.mp hMem]
    rfl

theorem guarded_of_lawful (h : Throughout (Lawful lease) log) :
    ∀ before e after, log = before ++ e :: after → e.crashed = true → ¬Suppressed lease before := by
  intro before e after hEq hCrashed hSuppressed
  obtain ⟨earlier, driver, signal, rfl, -, hFree⟩ := (h before e after hEq).of_crashed hCrashed
  exact hFree hSuppressed.of_probed

theorem classified_iff_of_lawful (h : Throughout (Lawful lease) log) : Classified lease log ↔ AppsIdle lease log := by
  constructor
  · intro hClassified before driver o after hEq hFailed hApp
    have hKind : o.action ≠ relaunch := by
      rw [hApp]
      exact nofun
    have hRested := (h before _ after hEq).2 hFailed hKind
    rw [if_pos hApp] at hRested
    exact (accounted_iff_idle hRested).mp (hClassified.accounted before driver o after hEq hFailed hKind)
  · intro hIdle
    refine ⟨crashedOnce_of_lawful h, guarded_of_lawful h, ?_⟩
    intro before driver o after hEq hFailed hKind
    have hEntry := (h before _ after hEq).2 hFailed hKind
    by_cases hApp : o.action = .app
    · rw [if_pos hApp] at hEntry
      exact (accounted_iff_idle hEntry).mpr (hIdle before driver o after hEq hFailed hApp)
    · rwa [if_neg hApp] at hEntry

end Logs

end Bajutsu.Orchestrator.AppCrash
