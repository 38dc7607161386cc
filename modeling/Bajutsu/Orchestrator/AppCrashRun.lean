import Bajutsu.Orchestrator.AppCrashClassified

/-!
# A scenario keeps its log lawful

What classifying an outcome leaves to be recorded, from it what each handler records, and by induction on the steps what a
whole scenario does, on whatever path and whatever is raised.
-/

namespace Bajutsu.Orchestrator.AppCrash

open Cleanup (CancelSource CleanupRule)
open Effect History

/-- Nothing is about to be recorded: the latches say what the log says. -/
structure Sound {D : Type} (lease : Bool) (latches : AppCrashLatches) (log : List (Event D)) : Prop where
  latched : Latched lease latches log
  rested : Rested log
  lawful : Throughout (Lawful lease) log

def SoundAt {W D : Type} (lease : Bool) (s : LoopState W D) : Prop := Sound lease s.appCrash s.log

/-- An outcome that is about to be recorded. -/
def Ready {W D : Type} (lease : Bool) (reached : Option D) (o : StepOutcome) (s : LoopState W D) : Prop :=
  Sound lease s.appCrash (s.log ++ [.recorded reached o])

section Recording

variable {D : Type} {lease : Bool} {latches : AppCrashLatches} {log : List (Event D)} {driver : D} {o : StepOutcome}

theorem sound_start : Sound lease { unconfirmedLaunch := lease } ([] : List (Event D)) where
  latched := latched_start
  rested := rested_nil
  lawful := throughout_nil

theorem Sound.suppressed (h : Sound lease latches log) :
    (latches.deliberateTermination || latches.unconfirmedLaunch) = true ↔ Suppressed lease log := by
  rw [Bool.or_eq_true, h.latched.deliberate, h.latched.unconfirmed, Suppressed]

theorem Latched.unmoved {e : Event D} (h : Latched lease latches log) (hFails : ¬e.RelaunchFails)
    (hRelaunches : ¬e.Relaunches) (hObserves : ¬e.Observes) (hSignal : e.signal = none) :
    Latched lease latches (log ++ [e]) := by
  apply h.snoc
  · rw [or_iff_left hFails]
  · rw [or_iff_right hRelaunches, and_iff_left hObserves]
  · rw [hSignal, Option.or_none]

theorem not_relaunches_of_failed (hFailed : o.ok = false) : ¬Event.Relaunches (.recorded (some driver) o) :=
  fun h => absurd (hFailed.symm.trans h.1) nofun

theorem not_observes_of_failed (hFailed : o.ok = false) : ¬Event.Observes (.recorded (some driver) o) :=
  fun h => absurd (hFailed.symm.trans h.1) nofun

theorem Latched.failed (h : Latched lease latches log) (hFailed : o.ok = false) (hKind : o.action ≠ relaunch) :
    Latched lease latches (log ++ [.recorded (some driver) o]) :=
  h.unmoved (fun hFails => hKind hFails.2) (not_relaunches_of_failed hFailed) (not_observes_of_failed hFailed) rfl

theorem Sound.unrouted (h : Sound lease latches log) (hCrashed : o.appCrashed = false) :
    Sound lease latches (log ++ [.recorded none o]) where
  latched := h.latched.unmoved id id id rfl
  rested := rested_recorded
  lawful := throughout_snoc.mpr ⟨h.lawful, hCrashed⟩

theorem Sound.recorded (h : Sound lease latches log) {latches' : AppCrashLatches}
    (hLatched : Latched lease latches' (log ++ [.recorded (some driver) o])) (hCrashed : o.appCrashed = false)
    (hAccounted : o.ok = false → o.action ≠ relaunch →
      if o.action = .app then Rested log else Accounted lease log driver o) :
    Sound lease latches' (log ++ [.recorded (some driver) o]) where
  latched := hLatched
  rested := rested_recorded
  lawful := throughout_snoc.mpr ⟨h.lawful, fun hTrue => absurd (hCrashed.symm.trans hTrue) nofun, hAccounted⟩

theorem Sound.app (h : Sound lease latches log) (hApp : o.action = .app) (hCrashed : o.appCrashed = false) :
    Sound lease latches (log ++ [.recorded (some driver) o]) := by
  have hKind : o.action ≠ relaunch := by
    rw [hApp]
    exact nofun
  have hLatched : Latched lease latches (log ++ [.recorded (some driver) o]) := by
    apply h.latched.unmoved
    · exact fun hFails => hKind hFails.2
    · exact fun hRelaunches => hKind hRelaunches.2
    · rintro ⟨-, hObserves⟩
      rw [hApp] at hObserves
      exact nomatch hObserves
    · rfl
  apply h.recorded hLatched hCrashed
  intro _ _
  rw [if_pos hApp]
  exact h.rested

theorem Sound.relaunchFailed (h : Sound lease latches log) (hFailed : o.ok = false) (hKind : o.action = relaunch)
    (hCrashed : o.appCrashed = false) :
    Sound lease { latches with deliberateTermination := true } (log ++ [.recorded (some driver) o]) := by
  refine h.recorded ?_ hCrashed fun _ hOther => absurd hKind hOther
  apply h.latched.snoc
  · exact iff_of_true rfl (.inr ⟨hFailed, hKind⟩)
  · rw [or_iff_right (not_relaunches_of_failed hFailed), and_iff_left (not_observes_of_failed hFailed)]
  · exact (Option.or_none).symm

theorem Sound.passed (h : Sound lease latches log) (hOk : o.ok = true) (hCrashed : o.appCrashed = false)
    {latches' : AppCrashLatches} (hDeliberate : latches'.deliberateTermination = latches.deliberateTermination)
    (hConfirmed : latches'.confirmedSignal = latches.confirmedSignal)
    (hUnconfirmed : latches'.unconfirmedLaunch = true ↔
      o.action = relaunch ∨ latches.unconfirmedLaunch = true ∧ ¬o.action.observes = true) :
    Sound lease latches' (log ++ [.recorded (some driver) o]) := by
  refine h.recorded ?_ hCrashed fun hFailed => absurd (hOk.symm.trans hFailed) nofun
  apply h.latched.snoc
  · rw [hDeliberate]
    exact (or_iff_left fun hFails => absurd (hFails.1.symm.trans hOk) nofun).symm
  · rw [hUnconfirmed]
    simp [Event.Relaunches, Event.Observes, hOk]
  · rw [hConfirmed]
    exact (Option.or_none).symm

theorem Sound.failed (h : Sound lease latches log) (hFailed : o.ok = false) (hKind : o.action ≠ relaunch)
    (hCrashed : o.appCrashed = false) (hAccounted : Accounted lease log driver o) (hApp : o.action ≠ .app) :
    Sound lease latches (log ++ [.recorded (some driver) o]) :=
  h.recorded (h.latched.failed hFailed hKind) hCrashed fun _ _ => by rwa [if_neg hApp]

theorem Latched.probed (h : Latched lease latches log) {answer : Option String} (hNone : confirmedSignal log = none) :
    Latched lease { latches with confirmedSignal := answer } (log ++ [.probed driver answer]) := by
  apply h.snoc
  · rw [or_iff_left (show ¬Event.RelaunchFails (.probed driver answer) from id)]
  · rw [or_iff_right (show ¬Event.Relaunches (.probed driver answer) from id),
      and_iff_left (show ¬Event.Observes (.probed driver answer) from id)]
  · rw [h.confirmed, hNone]
    rfl

theorem Sound.probed (h : Sound lease latches log) {answer : Option String} (hNone : confirmedSignal log = none)
    (hFree : ¬Suppressed lease log) : Throughout (Lawful lease) (log ++ [.probed driver answer]) :=
  throughout_snoc.mpr ⟨h.lawful, hNone, hFree⟩

theorem Sound.quiet (h : Sound lease latches log) (hNone : confirmedSignal log = none) (hFree : ¬Suppressed lease log)
    (hFailed : o.ok = false) (hKind : o.action ≠ relaunch) (hCrashed : o.appCrashed = false) (hApp : o.action ≠ .app) :
    Sound lease latches (log ++ [.probed driver none] ++ [.recorded (some driver) o]) := by
  have hSame : latches = { latches with confirmedSignal := none } := by
    rw [← hNone, ← h.latched.confirmed]
  have hLatched : Latched lease latches (log ++ [.probed driver none]) := by
    rw [hSame]
    exact h.latched.probed hNone
  refine ⟨hLatched.failed hFailed hKind, rested_recorded, throughout_snoc.mpr ⟨h.probed hNone hFree, ?_, ?_⟩⟩
  · exact fun hTrue => absurd (hCrashed.symm.trans hTrue) nofun
  · intro _ _
    rw [if_neg hApp]
    refine ⟨.inr (.inr ⟨none, log, rfl⟩), ?_⟩
    rw [confirmedSignal_snoc, hNone]
    exact nofun

theorem Sound.answered (h : Sound lease latches log) {signal : String} (hNone : confirmedSignal log = none)
    (hFree : ¬Suppressed lease log) :
    Sound lease { latches with confirmedSignal := some signal } (log ++ [.probed driver (some signal)]) where
  latched := h.latched.probed hNone
  rested := rested_answered
  lawful := h.probed hNone hFree

theorem contains_append (front part : String) : contains (front ++ part) part = true := by
  rw [contains, decide_eq_true_eq, String.toList_append]
  exact (List.suffix_append _ _).isInfix

theorem contains_withCrashNote (reason signal : String) : contains (withCrashNote reason signal) signal = true := by
  rw [withCrashNote]
  split
  · exact contains_append _ _
  · rw [← String.append_assoc]
    exact contains_append _ _

theorem Sound.crashed (h : Sound lease latches log) {signal : String} (hNone : confirmedSignal log = none)
    (hFree : ¬Suppressed lease log) (hFailed : o.ok = false) (hKind : o.action ≠ relaunch) (hApp : o.action ≠ .app) :
    Sound lease { latches with confirmedSignal := some signal } (log ++ [.probed driver (some signal)] ++
      [.recorded (some driver) { o with reason := withCrashNote o.reason signal, appCrashed := true }]) := by
  have hAnswered : Sound lease { latches with confirmedSignal := some signal } (log ++ [.probed driver (some signal)]) :=
    h.answered hNone hFree
  refine ⟨hAnswered.latched.failed hFailed hKind, rested_recorded,
    throughout_snoc.mpr ⟨hAnswered.lawful, fun _ => ⟨log, signal, rfl, hNone, hFree⟩, ?_⟩⟩
  intro _ _
  rw [if_neg hApp]
  refine ⟨.inr (.inl confirmedSignal_answered), ?_⟩
  rw [confirmedSignal_snoc, hNone]
  rintro _ ⟨⟩
  exact contains_withCrashNote _ _

end Recording

/-! ## What a handler records -/

section Handlers

variable {W D P : Type} {env : Outside W D P} {lease : Bool} {driver : D} {o : StepOutcome}

theorem ask_keeps {α : Type} {x : Effect W Raised α} {I : AppCrashLatches → List (Event D) → Prop} :
    Keeps (fun s : LoopState W D => I s.appCrash s.log) (ask x) :=
  keeps_of_state fun _ hs => hs

theorem ask_sound {α : Type} (x : Effect W Raised α) : Keeps (SoundAt lease) (ask x : Run W D α) :=
  ask_keeps (I := Sound lease)

theorem take_sound : Keeps (SoundAt lease) (take : Run W D Nat) := keeps_of_state fun _ hs => hs

theorem record_sound {reached : Option D} : Triple (Ready lease reached o) (record reached o : Run W D Unit)
    (fun _ => SoundAt lease) (SoundAt lease) := triple_modify fun _ hs => hs

theorem appCrashAnswer_keeps {I : AppCrashLatches → List (Event D) → Prop} :
    Keeps (fun s : LoopState W D => I s.appCrash s.log) (appCrashAnswer env driver) := by
  rw [appCrashAnswer]
  split
  · exact keeps_pure _
  · apply keeps_catching ask_keeps
    intro e handler hHandler
    split at hHandler
    · exact nomatch hHandler
    · obtain rfl := Option.some.inj hHandler
      exact keeps_pure _

/-- A failed step that no latch keeps from asking. -/
structure Asking (lease : Bool) (latches : AppCrashLatches) (log : List (Event D)) : Prop
    extends Sound lease latches log where
  unconfirmed : confirmedSignal log = none
  free : ¬Suppressed lease log

theorem probeAppCrash_asked : Triple (fun s : LoopState W D => Asking lease s.appCrash s.log) (probeAppCrash env driver)
    (fun answer s => ∃ log, s.log = log ++ [.probed driver answer] ∧ Asking lease s.appCrash log)
    (SoundAt lease) := by
  have hAnswer : Triple (fun s : LoopState W D => Asking lease s.appCrash s.log) (appCrashAnswer env driver)
      (fun _ s => Asking lease s.appCrash s.log) (SoundAt lease) :=
    appCrashAnswer_keeps.mono (fun _ => id) (fun _ _ => id) fun _ hs => hs.toSound
  apply triple_bind hAnswer
  intro answer
  refine triple_bind (M := fun _ s => ∃ log, s.log = log ++ [.probed driver answer] ∧ Asking lease s.appCrash log) ?_ ?_
  · exact triple_modify fun s hs => ⟨s.log, rfl, hs⟩
  · exact fun _ => triple_pure fun _ => id

theorem confirmCrash_ready {signal : String} (hFailed : o.ok = false) (hKind : o.action ≠ relaunch)
    (hApp : o.action ≠ .app) :
    Triple (fun s : LoopState W D => ∃ log, s.log = log ++ [.probed driver (some signal)] ∧ Asking lease s.appCrash log)
      (confirmCrash env o signal) (Ready lease (some driver)) (SoundAt lease) := by
  let confirmed (latches : AppCrashLatches) (after : List (Event D)) : Prop :=
    ∃ log before, after = log ++ [.probed driver (some signal)] ∧ Asking lease before log ∧
      latches = { before with confirmedSignal := some signal }
  have hSet : Triple (fun s : LoopState W D => ∃ log, s.log = log ++ [.probed driver (some signal)] ∧
      Asking lease s.appCrash log) (setLatches fun latches => { latches with confirmedSignal := some signal })
      (fun _ s => confirmed s.appCrash s.log) (SoundAt lease) :=
    triple_modify fun s ⟨log, hLog, hAsking⟩ => ⟨log, s.appCrash, hLog, hAsking, rfl⟩
  apply triple_bind hSet
  intro _
  have hCapture : Triple (fun s : LoopState W D => confirmed s.appCrash s.log) (ask env.captureAppCrash)
      (fun _ s => confirmed s.appCrash s.log) (SoundAt lease) := by
    apply (ask_keeps (I := confirmed)).mono (fun _ => id) (fun _ _ => id)
    rintro s ⟨log, before, hLog, hAsking, hLatches⟩
    rw [SoundAt, hLog, hLatches]
    exact hAsking.answered hAsking.unconfirmed hAsking.free
  apply triple_bind hCapture
  intro _
  apply triple_pure
  rintro s ⟨log, before, hLog, hAsking, hLatches⟩
  rw [Ready, hLog, hLatches]
  exact hAsking.crashed hAsking.unconfirmed hAsking.free hFailed hKind hApp

theorem classifyFailure_ready (hFailed : o.ok = false) (hCrashed : o.appCrashed = false) (hApp : o.action ≠ .app)
    {latches : AppCrashLatches} :
    Triple (fun s : LoopState W D => SoundAt lease s ∧ s.appCrash = latches) (classifyFailure env driver o latches)
      (Ready lease (some driver)) (SoundAt lease) := by
  rw [classifyFailure]
  split
  · rename_i hRelaunch
    refine triple_bind (M := fun _ => Ready lease (some driver) o) ?_ fun _ => triple_pure fun _ => id
    exact triple_modify fun s hs => hs.1.relaunchFailed hFailed hRelaunch hCrashed
  · rename_i hKind
    cases hConfirmed : latches.confirmedSignal with
    | some signal =>
      apply triple_pure
      rintro s ⟨hSound, rfl⟩
      have hLog : confirmedSignal s.log = some signal := hSound.latched.confirmed ▸ hConfirmed
      have hNoted : ∀ other, confirmedSignal s.log = some other → other = signal :=
        fun other hOther => Option.some.inj (hOther.symm.trans hLog)
      split
      · rename_i hContains
        apply hSound.failed hFailed hKind hCrashed ⟨.inr (.inl (hLog ▸ rfl)), ?_⟩ hApp
        intro other hOther
        rwa [hNoted other hOther]
      · apply Sound.failed (o := { o with reason := withCrashNote o.reason signal }) hSound hFailed hKind hCrashed
          ⟨.inr (.inl (hLog ▸ rfl)), ?_⟩ hApp
        intro other hOther
        rw [hNoted other hOther]
        exact contains_withCrashNote o.reason signal
    | none =>
      dsimp only
      split
      · rename_i hSuppressed
        apply triple_pure
        rintro s ⟨hSound, rfl⟩
        have hNone : confirmedSignal s.log = none := hSound.latched.confirmed ▸ hConfirmed
        refine hSound.failed hFailed hKind hCrashed ⟨.inl (hSound.suppressed.mp hSuppressed), ?_⟩ hApp
        rw [hNone]
        exact nofun
      · rename_i hFree
        have hAsking : ∀ s : LoopState W D, SoundAt lease s ∧ s.appCrash = latches →
            Asking lease s.appCrash s.log := by
          rintro s ⟨hSound, rfl⟩
          exact ⟨hSound, hSound.latched.confirmed ▸ hConfirmed, fun h => hFree (hSound.suppressed.mpr h)⟩
        apply triple_bind (probeAppCrash_asked.mono hAsking (fun _ _ => id) fun _ => id)
        intro answer
        cases answer with
        | none =>
          apply triple_pure
          rintro s ⟨log, hLog, hAsking⟩
          rw [Ready, hLog]
          exact hAsking.quiet hAsking.unconfirmed hAsking.free hFailed hKind hCrashed hApp
        | some signal => exact confirmCrash_ready hFailed hKind hApp

theorem trackLaunch_ready (hOk : o.ok = true) (hCrashed : o.appCrashed = false) :
    Triple (SoundAt lease) (trackLaunch o : Run W D Unit) (fun _ => Ready lease (some driver) o) (SoundAt lease) := by
  rw [trackLaunch]
  split
  · rename_i hRelaunch
    exact triple_modify fun s hs => hs.passed hOk hCrashed rfl rfl (iff_of_true rfl (.inl hRelaunch))
  · rename_i hKind
    split
    · rename_i hObserves
      apply triple_modify
      intro s hs
      refine hs.passed hOk hCrashed rfl rfl (iff_of_false nofun ?_)
      rintro (hRelaunch | ⟨-, hNot⟩)
      · exact hKind hRelaunch
      · exact hNot hObserves
    · rename_i hObserves
      apply triple_pure
      intro s hs
      exact hs.passed hOk hCrashed rfl rfl (by rw [or_iff_right hKind, and_iff_left hObserves])

theorem classifyAppCrash_ready (hCrashed : o.appCrashed = false) (hApp : o.action ≠ .app) :
    Triple (SoundAt lease) (classifyAppCrash env driver o : Run W D StepOutcome) (Ready lease (some driver))
      (SoundAt lease) := by
  rw [classifyAppCrash]
  split
  · rename_i hOk
    exact triple_bind (trackLaunch_ready hOk hCrashed) fun _ => triple_pure fun _ => id
  · rename_i hFailed
    refine triple_bind (M := fun now s => SoundAt lease s ∧ s.appCrash = now.appCrash) ?_ ?_
    · exact triple_read fun s hs => ⟨hs, rfl⟩
    · exact fun now => classifyFailure_ready (Bool.eq_false_iff.mpr hFailed) hCrashed hApp

theorem finishOutcome_sound (hCrashed : o.appCrashed = false) (hApp : o.action ≠ .app) :
    Keeps (SoundAt lease) (finishOutcome env driver o) := by
  apply triple_bind (classifyAppCrash_ready hCrashed hApp)
  intro o'
  exact triple_bind record_sound fun _ => triple_pure fun _ => id

theorem drainStepInterruptions_sound : Triple (SoundAt lease) (drainStepInterruptions env driver o)
    (fun (drained : StepOutcome) (s : LoopState W D) =>
      (drained.appCrashed = o.appCrashed ∧ drained.action = o.action) ∧ SoundAt lease s)
    (SoundAt lease) := by
  apply triple_bind (ask_sound _)
  intro note
  cases note with
  | none => exact triple_pure fun _ hs => ⟨⟨rfl, rfl⟩, hs⟩
  | some note => exact triple_pure fun _ hs => ⟨⟨rfl, rfl⟩, hs⟩

theorem failUnrouted_sound (step : Step P) (reason : String) :
    Keeps (SoundAt lease) (failUnrouted step reason : Run W D (Option String)) := by
  apply keeps_bind take_sound
  intro index
  refine keeps_bind (keeps_modify fun s hs => hs.unrouted rfl) fun _ => keeps_pure _

theorem finishBlock_sound (hCrashed : o.appCrashed = false) (hApp : o.action ≠ .app) :
    Keeps (SoundAt lease) (finishBlock env driver o) := by
  apply triple_bind drainStepInterruptions_sound
  intro drained
  apply triple_and
  rintro ⟨hSame, hKind⟩
  exact keeps_bind (finishOutcome_sound (hSame.trans hCrashed) (hKind ▸ hApp)) fun _ => keeps_pure _

variable {index : Nat} {written : P} {steps : D → Run W D (Option String)}

theorem handleIf_sound {thenSteps elseSteps : D → Run W D (Option String)}
    (hThen : ∀ d, Keeps (SoundAt lease) (thenSteps d)) (hElse : ∀ d, Keeps (SoundAt lease) (elseSteps d)) :
    Keeps (SoundAt lease) (handleIf env index written driver thenSteps elseSteps) := by
  apply keeps_bind (ask_sound _)
  intro holds
  have hBranch : Keeps (SoundAt lease) ((if holds = true then thenSteps else elseSteps) driver) := by
    split
    · exact hThen driver
    · exact hElse driver
  exact keeps_bind hBranch fun _ => finishBlock_sound rfl nofun

theorem runForEach_sound (hSteps : ∀ d, Keeps (SoundAt lease) (steps d)) (found : List (Except String String)) :
    Keeps (SoundAt lease) (runForEach env written driver steps found) := by
  induction found with
  | nil => exact keeps_pure _
  | cons first rest ih =>
    cases first with
    | error problem => exact keeps_pure _
    | ok ident =>
      apply keeps_bind (ask_sound _)
      intro _
      apply keeps_bind (hSteps driver)
      intro failure
      cases failure with
      | none => exact ih
      | some failure => exact keeps_pure _

theorem handleForEach_sound (hSteps : ∀ d, Keeps (SoundAt lease) (steps d)) :
    Keeps (SoundAt lease) (handleForEach env index written driver steps) := by
  apply keeps_bind (ask_sound _)
  intro found
  exact keeps_bind (runForEach_sound hSteps found) fun _ => finishBlock_sound rfl nofun

theorem runWeb_sound (hSteps : ∀ d, Keeps (SoundAt lease) (steps d)) :
    Keeps (SoundAt lease) (runWeb env written driver steps) := by
  apply keeps_bind (ask_sound _)
  intro entered
  cases entered with
  | error reason => exact keeps_pure _
  | ok webDriver => exact keeps_bind (hSteps webDriver) fun _ => keeps_pure _

theorem handleWeb_sound (hSteps : ∀ d, Keeps (SoundAt lease) (steps d)) :
    Keeps (SoundAt lease) (handleWeb env index written driver steps) := by
  refine keeps_bind (keeps_catching (runWeb_sound hSteps) ?_) fun _ => finishBlock_sound rfl nofun
  intro e handler hHandler
  split at hHandler
  · obtain rfl := Option.some.inj hHandler
    exact keeps_pure _
  · exact nomatch hHandler

theorem leaving_sound (hSteps : ∀ d, Keeps (SoundAt lease) (steps d)) :
    Keeps (SoundAt lease) (leaving env driver steps) := by
  apply keeps_bind (keeps_attempt (hSteps driver))
  intro ended
  cases ended with
  | ok failure => exact keeps_pure _
  | error e => exact keeps_bind (keeps_attempt (ask_sound _)) fun _ => keeps_raise e

theorem runApp_sound (hSteps : ∀ d, Keeps (SoundAt lease) (steps d)) :
    Keeps (SoundAt lease) (runApp env written driver steps) := by
  apply keeps_bind (ask_sound _)
  intro _
  apply keeps_bind (leaving_sound hSteps)
  intro failure
  exact keeps_bind (ask_sound _) fun _ => keeps_pure _

theorem handleApp_sound (hSteps : ∀ d, Keeps (SoundAt lease) (steps d)) :
    Keeps (SoundAt lease) (handleApp env index written driver steps) := by
  refine keeps_bind (keeps_catching (runApp_sound hSteps) ?_) ?_
  · intro e handler hHandler
    split at hHandler
    · obtain rfl := Option.some.inj hHandler
      exact keeps_pure _
    · obtain rfl := Option.some.inj hHandler
      exact keeps_pure _
    · exact nomatch hHandler
  · intro result
    apply triple_bind drainStepInterruptions_sound
    intro drained
    apply triple_and
    rintro ⟨hCrashed, hKind⟩
    exact keeps_bind (keeps_modify fun s hs => hs.app hKind hCrashed) fun _ => keeps_pure _

theorem handleLifecycle_sound {action : Action} (hApp : action ≠ .app) :
    Keeps (SoundAt lease) (handleLifecycle env index action written driver) := by
  apply keeps_bind (ask_sound _)
  intro failure
  exact keeps_bind (finishOutcome_sound rfl hApp) fun _ => keeps_pure _

theorem handleAction_sound {act : Leaf → P → D → Run W D (Bool × String)} {kind : Leaf}
    (hAct : ∀ kind written d, Keeps (SoundAt lease) (act kind written d)) :
    Keeps (SoundAt lease) (handleAction env act index kind written driver) := by
  apply keeps_bind (hAct kind written driver)
  intro result
  exact keeps_bind (finishOutcome_sound rfl nofun) fun _ => keeps_pure _

/-! ## The step loop -/

section Loop

variable {act : Leaf → P → D → Run W D (Bool × String)} {source : CancelSource}

mutual

theorem runOne_sound (hAct : ∀ kind written d, Keeps (SoundAt lease) (act kind written d)) :
    ∀ (step : Step P) (driver : D), Keeps (SoundAt lease) (runOne env act source step driver)
  | .leaf _ _, _ => keeps_bind take_sound fun _ => handleAction_sound hAct
  | .installApp _, _ => keeps_bind take_sound fun _ => handleLifecycle_sound nofun
  | .setPrimaryTarget _, _ => keeps_bind take_sound fun _ => handleLifecycle_sound nofun
  | .ifElse _ thenSteps elseSteps, _ => by
    rw [runOne]
    apply keeps_bind take_sound
    intro index
    apply handleIf_sound
    · exact fun d => execSteps_sound hAct thenSteps d
    · exact fun d => execSteps_sound hAct elseSteps d
  | .forEach _ steps, _ => keeps_bind take_sound fun _ => handleForEach_sound fun d => execSteps_sound hAct steps d
  | .web _ steps, _ => keeps_bind take_sound fun _ => handleWeb_sound fun d => execSteps_sound hAct steps d
  | .app _ steps, _ => keeps_bind take_sound fun _ => handleApp_sound fun d => execSteps_sound hAct steps d

theorem execSteps_sound (hAct : ∀ kind written d, Keeps (SoundAt lease) (act kind written d)) :
    ∀ (steps : List (Step P)) (driver : D), Keeps (SoundAt lease) (execSteps env act source steps driver)
  | [], _ => keeps_pure _
  | step :: rest, driver => by
    rw [execSteps]
    apply keeps_bind (ask_sound _)
    intro cancelled
    have hGoOn : Keeps (SoundAt lease) (do
        match ← ask (env.route step.written driver) with
        | .error reason => failUnrouted step reason
        | .ok stepDriver => do
          ask (env.pauseBefore step.written stepDriver)
          match ← runOne env act source step stepDriver with
          | some failure => do
            ask (env.pauseAfterFailure failure)
            return some failure
          | none => execSteps env act source rest driver : Run W D (Option String)) := by
      apply keeps_bind (ask_sound _)
      intro routed
      cases routed with
      | error reason => exact failUnrouted_sound step reason
      | ok stepDriver =>
        apply keeps_bind (ask_sound _)
        intro _
        apply keeps_bind (runOne_sound hAct step stepDriver)
        intro failure
        cases failure with
        | none => exact execSteps_sound hAct rest driver
        | some failure => exact keeps_bind (ask_sound _) fun _ => keeps_pure _
    cases cancelled with
    | true => exact keeps_bind (keeps_raise _) fun _ => hGoOn
    | false => exact hGoOn

end

end Loop

/-! ## The scenario -/

theorem runBody_sound {recover : List (Step P) → D → Run W D (Option String)}
    (hRecover : ∀ steps d, Keeps (SoundAt lease) (recover steps d)) (body : Body W P) :
    Keeps (SoundAt lease) (runBody recover driver body) := by
  induction body with
  | settle result world => exact keeps_of_state fun _ hs => hs
  | recover steps world resume ih =>
    have hWorld : Keeps (SoundAt lease) (modify fun s => { s with world } : Run W D Unit) := keeps_modify fun _ hs => hs
    apply keeps_bind hWorld
    intro _
    apply keeps_bind (keeps_attempt (hRecover steps driver))
    intro ended
    apply keeps_bind keeps_read
    intro s
    exact ih ended s.world

theorem runSteps_sound (source : CancelSource) (steps : List (Step P)) :
    Keeps (SoundAt lease) (runSteps env source steps driver) := by
  apply execSteps_sound
  intro kind written d
  apply keeps_bind keeps_read
  intro s
  exact runBody_sound (execSteps_sound fun _ _ _ => ask_sound _) _

theorem restartCounter_sound : Keeps (SoundAt lease) (restartCounter : Run W D Unit) := keeps_modify fun _ hs => hs

theorem runPhase_sound (steps : List (Step P)) : Keeps (SoundAt lease) (runPhase env steps driver) :=
  keeps_bind restartCounter_sound fun _ => runSteps_sound .run steps

theorem dispatchRules_sound {source : CancelSource} {bounded : Bool} {verdict : Cleanup.On}
    (rules : List (CleanupRule (Step P))) (failure : Option String) :
    Keeps (SoundAt lease) (dispatchRules env source bounded verdict driver rules failure) := by
  induction rules generalizing failure with
  | nil => exact keeps_pure _
  | cons rule rules ih =>
    rw [dispatchRules]
    split
    · apply keeps_bind (keeps_attempt (runSteps_sound source rule.steps))
      intro ended
      split
      · exact ih failure
      · exact ih _
      · exact keeps_pure _
      · exact keeps_raise _
    · exact ih failure

theorem dispatchCleanup_sound (rules : List (CleanupRule (Step P))) (failure : Option String) :
    Keeps (SoundAt lease) (dispatchCleanup env rules failure driver) := by
  apply keeps_bind (ask_sound _)
  intro cancelled
  split
  · apply keeps_bind (ask_sound _)
    intro time
    exact dispatchRules_sound rules failure
  · exact dispatchRules_sound rules failure

theorem runToExpect_sound (sc : Scenario P) : Keeps (SoundAt lease) (runToExpect env sc driver) := by
  have hSetup : Keeps (SoundAt lease) (runSetup env sc driver) := by
    rw [runSetup]
    split
    · exact keeps_pure _
    · exact keeps_bind (runPhase_sound sc.setup) fun _ => keeps_pure _
  apply keeps_bind hSetup
  intro failure
  cases failure with
  | some failure => exact keeps_pure _
  | none =>
    apply keeps_bind (runPhase_sound sc.steps)
    intro failure
    cases failure with
    | some failure => exact keeps_pure _
    | none => exact ask_sound _

theorem runScenario_sound (sc : Scenario P) : Keeps (SoundAt lease) (runScenario env sc driver) := by
  refine keeps_bind (keeps_catching (runToExpect_sound sc) ?_) ?_
  · intro e handler hHandler
    split at hHandler
    · obtain rfl := Option.some.inj hHandler
      exact keeps_pure _
    · obtain rfl := Option.some.inj hHandler
      exact keeps_pure _
    · obtain rfl := Option.some.inj hHandler
      exact keeps_pure _
    · exact nomatch hHandler
  · intro failure
    split
    · exact keeps_pure _
    · exact keeps_bind restartCounter_sound fun _ => dispatchCleanup_sound sc.cleanup failure

end Handlers

/-- What a scenario leaves in its log, from a start at which its driver's launch is confirmed or not. -/
def runLog {W D P : Type} (env : Outside W D P) (sc : Scenario P) (driver : D) (world : W) (lease : Bool) :
    List (Event D) :=
  (runScenario env sc driver (.start world lease)).2.log

/-- Of every run, the log is classified just if classifying the outcome of a failed `app` step would never have changed
anything. -/
theorem runLog_classified_iff {W D P : Type} (env : Outside W D P) (sc : Scenario P) (driver : D) (world : W)
    (lease : Bool) :
    Classified lease (runLog env sc driver world lease) ↔ AppsIdle lease (runLog env sc driver world lease) := by
  have hStart : SoundAt lease (LoopState.start world lease : LoopState W D) := sound_start
  exact classified_iff_of_lawful ((runScenario_sound sc).state hStart).lawful

/-! ## An app block that fails -/

/-- The app has crashed, and the block that should have gone into it says only that it cannot. -/
def crashedApp : Outside Unit Unit Unit where
  cancelled _ := pure false
  now := pure 0
  teardownSeconds := 1
  route _ _ := pure (.ok ())
  pauseBefore _ _ := pure ()
  pauseAfterFailure _ := pure ()
  condition _ _ := pure true
  matched _ _ := pure []
  bindLoop _ _ := pure ()
  enterWeb _ _ := pure (.ok ())
  enterApp _ _ := raise (.unsupportedAction "the app is not running")
  leaveApp _ := pure ()
  lifecycle _ _ _ := pure none
  act _ _ _ world := .settle (.ok (true, "")) world
  actInRecovery _ _ _ := pure (true, "")
  drainInterruptions _ := pure none
  appCrashSignal _ := some (pure (some "EXC_BAD_ACCESS (SIGSEGV)"))
  captureAppCrash := pure ()
  expect := pure none

/-- The outcome of the block is a failed one like any other, and no driver has been asked. -/
theorem app_not_probed : ¬Classified false
    (runLog crashedApp { setup := [], steps := [.app () [.leaf .tap ()]], cleanup := [] } () () false) := by
  intro h
  have hLog : runLog crashedApp { setup := [], steps := [.app () [.leaf .tap ()]], cleanup := [] } () () false =
      [] ++ .recorded (some ()) { index := 0, action := .app, ok := false, reason := "the app is not running" } :: [] :=
    rfl
  obtain ⟨(⟨e, hMem, -⟩ | ⟨hLease, -⟩ | ⟨e, -, hSince⟩) | hConfirmed | ⟨answer, earlier, hEq⟩, -⟩ :=
    h.accounted [] () _ [] hLog rfl nofun
  · exact nomatch hMem
  · exact nomatch hLease
  · exact nomatch hSince.mem
  · exact nomatch hConfirmed
  · exact absurd hEq.symm (List.append_ne_nil_of_right_ne_nil _ (List.cons_ne_nil _ _))

end Bajutsu.Orchestrator.AppCrash
