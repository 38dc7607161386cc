import Bajutsu.Lib.PyValue

/-!
# The roster of a multi-target run

Where each declared target stands, and which one is the primary now. Every target that starts with the scenario is
running from its first step; a later member of a device group is installed, brought up and retired by the steps.
-/

namespace Bajutsu.Orchestrator

open PyValue

inductive MemberStatus where
  | notInstalled
  | installed
  | running
  | retired
  deriving DecidableEq

namespace MemberStatus

def value : MemberStatus → String
  | notInstalled => "not installed"
  | installed => "installed, not launched"
  | running => "running"
  | retired => "retired"

/-- How far along its lifecycle a target is. -/
def rank : MemberStatus → Nat
  | notInstalled => 0
  | installed => 1
  | running => 2
  | retired => 3

/-- The target's app is on its device. -/
def active : MemberStatus → Bool
  | installed => true
  | running => true
  | _ => false

end MemberStatus

/-- An `interrupts` entry: the target it names, and its condition and steps. -/
structure Interrupt (E : Type) where
  target : Option String
  entry : E

/-- The kind of a step, with the arguments of the two kinds that the roster answers to. -/
inductive Action where
  | installApp (from_ : String) (keepData : Bool)
  | setPrimaryTarget (target : String)
  | foreground
  | other (kind : String)

def Action.isInstallApp : Action → Bool
  | installApp _ _ => true
  | _ => false

def Action.isForeground : Action → Bool
  | foreground => true
  | _ => false

/-- Why a step cannot run. -/
inductive Problem where
  | retired (name : String)
  | notInstalled (name : String)
  | notLaunched (name : String)
  | alreadyInstalled (member : String) (status : MemberStatus)
  | noInstall (member : String)
  | installRaised (member cause : String)
  | couldNotStart (target cause : String)
  | primaryRetired (name : String)

def Problem.message (repr : String → String) : Problem → String
  | retired name =>
    "target " ++ repr name ++ " is retired: another member's build replaced its app on the " ++
      "shared device, so address the member that installed it"
  | notInstalled name =>
    "target " ++ repr name ++ " is not installed yet: an installApp step must install it before " ++
      "any other step addresses it"
  | notLaunched name =>
    "target " ++ repr name ++ " has not launched yet: bring it up with a foreground step addressed " ++
      "to it first"
  | alreadyInstalled member status =>
    "installApp from " ++ repr member ++ ": it was already installed in this scenario " ++
      "(now " ++ status.value ++ ") — a later member installs once"
  | noInstall member =>
    "installApp from " ++ repr member ++ ": installApp from " ++ repr member ++ ": no install was wired"
  | installRaised member cause => "installApp from " ++ repr member ++ ": " ++ cause
  | couldNotStart target cause => "target " ++ repr target ++ " could not start: " ++ cause
  | primaryRetired name =>
    "setPrimaryTarget " ++ repr name ++ ": that member is retired — another member's build " ++
      "replaced its app, so name the member that installed it"

/-- What a callback of the pipeline does: it is not wired, it raises, it raises what the crash retry or the cancel
path owns, or it returns. -/
inductive Answer (α : Type) where
  | unwired
  | raised (cause : String)
  | crashed
  | returned (value : α)

structure TargetRoster (E R : Type) where
  primary : String
  entries : List (Interrupt E)
  status : List (String × MemberStatus)
  runtimes : List (String × R)

inductive Outcome where
  | passed
  | failed (problem : Problem)
  | aborted

namespace TargetRoster

variable {E R : Type} (self : TargetRoster E R)

/-- `{**started, **self.runtimes}` -/
def live (started : List (String × R)) : List (String × R) :=
  self.runtimes.foldl (fun d item => PyValue.set d item.1 item.2) started

/-- Running is every target the roster does not track. -/
def statusOf (name : String) : MemberStatus := (get self.status name).getD .running

def setPrimary (name : String) : TargetRoster E R := { self with primary := name }

def mark (name : String) (status : MemberStatus) : TargetRoster E R :=
  { self with status := PyValue.set self.status name status }

/-- Why a step of this kind cannot run against the target now. -/
def unavailable (name : String) (action : Action) : Option Problem :=
  if self.statusOf name = .running ∨ action.isInstallApp then none
  else
    match self.statusOf name with
    | .retired => some (.retired name)
    | .notInstalled => some (.notInstalled name)
    | _ => if action.isForeground then none else some (.notLaunched name)

/-- A member whose build was never installed has no app to replace. -/
def retire (other : String) : TargetRoster E R :=
  if self.statusOf other ≠ .notInstalled then self.mark other .retired else self

/-- `answer` is what `install` reports: the other members whose app shares the member's identifier. -/
def installMember (member : String) (answer : Answer (List String)) : Outcome × TargetRoster E R :=
  if self.statusOf member ≠ .notInstalled then
    (.failed (.alreadyInstalled member (self.statusOf member)), self)
  else
    match answer with
    | .unwired => (.failed (.noInstall member), self)
    | .raised cause => (.failed (.installRaised member cause), self)
    | .crashed => (.aborted, self)
    | .returned others => (.passed, (others.foldl retire self).mark member .installed)

def movePrimary (name : String) : Outcome × TargetRoster E R :=
  if self.statusOf name = .retired then (.failed (.primaryRetired name), self)
  else (.passed, self.setPrimary name)

def polls (name : String) : Bool := self.statusOf name = .running

/-- The scenario's entries that this target's runner watches while `primary` is the primary. -/
def watched (primary name : String) : List (Interrupt E) :=
  self.entries.filter fun e => e.target.getD primary = name

/-- The config's own entries come first. -/
def interruptsFor (name : String) (config : List (Interrupt E)) : List (Interrupt E) :=
  if self.polls name then config ++ self.watched self.primary name else []

/-! ## What each operation does to the statuses -/

variable {self}

theorem statusOf_mark_self (name : String) (status : MemberStatus) :
    (self.mark name status).statusOf name = status := by
  simp [statusOf, mark]

theorem statusOf_mark_ne {name other : String} (h : other ≠ name) (status : MemberStatus) :
    (self.mark name status).statusOf other = self.statusOf other := by
  rw [statusOf, mark, get_set_ne _ _ h, statusOf]

theorem statusOf_retire (other name : String) :
    (self.retire other).statusOf name =
      if name = other ∧ self.statusOf other ≠ .notInstalled then .retired else self.statusOf name := by
  rw [retire]
  split
  · rename_i hInstalled
    by_cases hName : name = other
    · subst hName
      rw [statusOf_mark_self, if_pos ⟨rfl, hInstalled⟩]
    · rw [statusOf_mark_ne hName, if_neg fun h => hName h.1]
  · rename_i hInstalled
    rw [if_neg fun h => hInstalled h.2]

theorem statusOf_retireAll (others : List String) (name : String) :
    (others.foldl retire self).statusOf name =
      if name ∈ others ∧ self.statusOf name ≠ .notInstalled then .retired else self.statusOf name := by
  induction others generalizing self with
  | nil => simp
  | cons other others ih =>
    rw [List.foldl_cons, ih, statusOf_retire]
    by_cases hName : name = other
    · subst hName
      by_cases hStatus : self.statusOf name = .notInstalled
      · simp [hStatus]
      · simp [hStatus]
    · simp [hName]

@[simp] theorem retire_primary (other : String) : (self.retire other).primary = self.primary := by
  rw [retire]
  split <;> rfl

@[simp] theorem retire_entries (other : String) : (self.retire other).entries = self.entries := by
  rw [retire]
  split <;> rfl

@[simp] theorem retire_runtimes (other : String) : (self.retire other).runtimes = self.runtimes := by
  rw [retire]
  split <;> rfl

theorem retireAll_frame (others : List String) :
    (others.foldl retire self).primary = self.primary ∧ (others.foldl retire self).entries = self.entries ∧
      (others.foldl retire self).runtimes = self.runtimes := by
  induction others generalizing self with
  | nil => exact ⟨rfl, rfl, rfl⟩
  | cons other others ih => simpa using @ih (self.retire other)

theorem installMember_cases (member : String) (answer : Answer (List String)) :
    (∃ others, self.statusOf member = .notInstalled ∧ answer = .returned others ∧
        self.installMember member answer = (.passed, (others.foldl retire self).mark member .installed)) ∨
      (self.installMember member answer).1 ≠ .passed ∧ (self.installMember member answer).2 = self := by
  by_cases hStatus : self.statusOf member = .notInstalled
  · cases answer with
    | unwired => exact .inr (by simp [installMember, hStatus])
    | raised cause => exact .inr (by simp [installMember, hStatus])
    | crashed => exact .inr (by simp [installMember, hStatus])
    | returned others => exact .inl ⟨others, hStatus, rfl, by simp [installMember, hStatus]⟩
  · exact .inr (by simp [installMember, hStatus])

theorem movePrimary_cases (name : String) :
    (self.statusOf name ≠ .retired ∧ self.movePrimary name = (.passed, self.setPrimary name)) ∨
      (self.movePrimary name).1 ≠ .passed ∧ (self.movePrimary name).2 = self := by
  rw [movePrimary]
  split
  · exact .inr ⟨nofun, rfl⟩
  · rename_i hStatus
    exact .inl ⟨hStatus, rfl⟩

theorem unavailable_none {name : String} {action : Action} (hInstall : action.isInstallApp = false)
    (h : self.unavailable name action = none) :
    self.statusOf name = .running ∨ self.statusOf name = .installed ∧ action.isForeground = true := by
  rw [unavailable, hInstall] at h
  cases hStatus : self.statusOf name with
  | running => exact .inl rfl
  | notInstalled => simp [hStatus] at h
  | retired => simp [hStatus] at h
  | installed =>
    rw [hStatus] at h
    simpa using h

end TargetRoster

end Bajutsu.Orchestrator
