import Bajutsu.Lib.History
import Bajutsu.Orchestrator.AppCrash

/-!
# What a log says of the app

A relaunch has failed, a launch is unconfirmed, a crash is confirmed: each is said of the log alone, in terms of what was
recorded and asked. The latches that the step loop carries say the same.
-/

namespace Bajutsu.Orchestrator.AppCrash

open History

section Log

variable {D : Type}

namespace Event

/-- A relaunch that reached a driver and failed. -/
def RelaunchFails : Event D → Prop
  | recorded (some _) o => o.ok = false ∧ o.action = relaunch
  | _ => False

/-- A relaunch that passed. -/
def Relaunches : Event D → Prop
  | recorded (some _) o => o.ok = true ∧ o.action = relaunch
  | _ => False

/-- A step of a kind that observes the app, which passed. -/
def Observes : Event D → Prop
  | recorded (some _) o => o.ok = true ∧ o.action.observes = true
  | _ => False

def signal : Event D → Option String
  | probed _ answer => answer
  | recorded _ _ => none

def crashed : Event D → Bool
  | probed _ _ => false
  | recorded _ o => o.appCrashed

end Event

def RelaunchFailed (log : List (Event D)) : Prop := ∃ e ∈ log, e.RelaunchFails

/-- No step has observed the app since a launch: the lease's own, which was not confirmed, or a relaunch. -/
def Unconfirmed (lease : Bool) (log : List (Event D)) : Prop :=
  (lease = true ∧ ∀ e ∈ log, ¬e.Observes) ∨
    ∃ e, e.Relaunches ∧ Since (fun _ => True) e (fun later => ¬later.Observes) log

/-- The signal that a crash has been confirmed with. -/
def confirmedSignal (log : List (Event D)) : Option String := log.findSome? Event.signal

/-! ## A log that grows -/

variable {lease : Bool} {log : List (Event D)} {e : Event D}

theorem relaunchFailed_snoc : RelaunchFailed (log ++ [e]) ↔ RelaunchFailed log ∨ e.RelaunchFails := by
  simp only [RelaunchFailed, List.mem_append, List.mem_singleton, or_and_right, exists_or, exists_eq_left]

theorem Event.Relaunches.not_observes (h : e.Relaunches) : ¬e.Observes := by
  intro hObserves
  cases e with
  | probed driver answer => exact h
  | recorded driver o =>
    cases driver with
    | none => exact h
    | some d =>
      have hKind := h.2 ▸ hObserves.2
      exact absurd hKind (by decide)

theorem unconfirmed_snoc : Unconfirmed lease (log ++ [e]) ↔ e.Relaunches ∨ Unconfirmed lease log ∧ ¬e.Observes := by
  constructor
  · rintro (⟨hLease, hNone⟩ | ⟨first, hFirst, before, later, hEq, -, hLater⟩)
    · obtain ⟨hLog, hLast⟩ := List.forall_mem_append.mp hNone
      exact .inr ⟨.inl ⟨hLease, hLog⟩, hLast e (List.mem_singleton_self e)⟩
    · obtain ⟨rfl, rfl, rfl⟩ | ⟨rest, rfl, rfl⟩ := split_snoc hEq
      · exact .inl hFirst
      · obtain ⟨hRest, hLast⟩ := List.forall_mem_append.mp hLater
        exact .inr ⟨.inr ⟨first, hFirst, before, rest, rfl, trivial, hRest⟩, hLast e (List.mem_singleton_self e)⟩
  · rintro (hRelaunch | ⟨⟨hLease, hNone⟩ | ⟨first, hFirst, hSince⟩, hQuiet⟩)
    · exact .inr ⟨e, hRelaunch, Since.here trivial⟩
    · refine .inl ⟨hLease, List.forall_mem_append.mpr ⟨hNone, ?_⟩⟩
      rintro _ hMem
      rw [List.mem_singleton.mp hMem]
      exact hQuiet
    · exact .inr ⟨first, hFirst, hSince.later hQuiet⟩

theorem confirmedSignal_snoc : confirmedSignal (log ++ [e]) = (confirmedSignal log).or e.signal := by
  rw [confirmedSignal, List.findSome?_append, List.findSome?_singleton]
  rfl

/-! ## The latches -/

/-- The latches say what the log says. -/
structure Latched (lease : Bool) (latches : AppCrashLatches) (log : List (Event D)) : Prop where
  deliberate : latches.deliberateTermination = true ↔ RelaunchFailed log
  unconfirmed : latches.unconfirmedLaunch = true ↔ Unconfirmed lease log
  confirmed : latches.confirmedSignal = confirmedSignal log

theorem latched_start : Latched lease { unconfirmedLaunch := lease } ([] : List (Event D)) where
  deliberate := iff_of_false nofun nofun
  unconfirmed := by simp [Unconfirmed, Since]
  confirmed := rfl

theorem Latched.snoc {latches latches' : AppCrashLatches} (h : Latched lease latches log)
    (hDeliberate : latches'.deliberateTermination = true ↔ latches.deliberateTermination = true ∨ e.RelaunchFails)
    (hUnconfirmed : latches'.unconfirmedLaunch = true ↔ e.Relaunches ∨ latches.unconfirmedLaunch = true ∧ ¬e.Observes)
    (hConfirmed : latches'.confirmedSignal = latches.confirmedSignal.or e.signal) :
    Latched lease latches' (log ++ [e]) where
  deliberate := by rw [hDeliberate, h.deliberate, relaunchFailed_snoc]
  unconfirmed := by rw [hUnconfirmed, h.unconfirmed, unconfirmed_snoc]
  confirmed := by rw [hConfirmed, h.confirmed, confirmedSignal_snoc]

end Log

end Bajutsu.Orchestrator.AppCrash
