import Bajutsu.Lib.History
import Bajutsu.Runner.CrashRecovery
import Mathlib.Tactic.Linarith

/-!
# Crash recovery is bounded and honest

The law of one scenario is about the log of its attempts: which crashes are retried, when another device is asked for,
what is billed, and what the scenario failed for.
-/

namespace Bajutsu.Runner.CrashRecovery

open History

variable {σ Lease Result Err : Type} {world : World σ}

/-! ## The law -/

def firstCrash (log : List AttemptLog) : Option CrashLog := log.findSome? AttemptLog.crash

def AttemptLog.replaces (a : AttemptLog) : Bool := a.crash.any CrashLog.replacement

section Law

variable (runner : ScenarioRunner world Lease Result Err) (before : List AttemptLog) (crash : CrashLog)

def InCount : Prop := before.length + 1 ≤ runner.crashRetries

/-- The deadline is set by the first crash, which may be this one. -/
def InTime : Prop :=
  ∀ budget ∈ runner.crashRecoveryBudget, crash.judged < ((firstCrash before).getD crash).judged + budget

def Allowed : Prop := InCount runner before ∧ InTime runner before crash ∧ crash.exhausted = false ∧ crash.cancelled = false

/-- What the last attempt shows where the scenario failed for the cause. -/
def Explains (a : AttemptLog) : Cause → Prop
  | .deviceTimeout => a.forcedErase ∧ a.leased = none ∧ a.crash = none
  | .cancelled => ∃ crash, a.crash = some crash ∧ crash.cancelled ∧ crash.exhausted = false ∧
      InCount runner before ∧ InTime runner before crash
  | .runBudget => ∃ crash, a.crash = some crash ∧ crash.exhausted ∧ InCount runner before ∧ InTime runner before crash
  | .budget => ∃ crash, a.crash = some crash ∧ InCount runner before ∧ ¬InTime runner before crash
  | .attempts => ∃ crash, a.crash = some crash ∧ ¬InCount runner before

end Law

/-- The spans that are over, and the beginning of one that is not, after a lease that came back. -/
def leaseStep (spans : List (ℚ × ℚ) × Option ℚ) (leased : Option ℚ) : List (ℚ × ℚ) × Option ℚ :=
  match leased, spans.2 with
  | some leased, some started => (spans.1 ++ [(started, leased)], none)
  | _, started => (spans.1, started)

def spanStep (spans : List (ℚ × ℚ) × Option ℚ) (a : AttemptLog) : List (ℚ × ℚ) × Option ℚ :=
  let after := leaseStep spans a.leased
  (after.1, after.2.or (a.crash.map CrashLog.entered))

/-- The spans from a crash to the next lease, or to the end of the scenario. -/
def recoverySpans (log : List AttemptLog) (ended : ℚ) : List (ℚ × ℚ) :=
  let spans := log.foldl spanStep ([], none)
  spans.1 ++ (spans.2.map fun started => (started, ended)).toList

def seconds (span : ℚ × ℚ) : ℚ := span.2 - span.1

structure Honest (runner : ScenarioRunner world Lease Result Err) (o : Outcome σ Lease Result Err) : Prop where
  attempts : o.recovery.log.length ≤ runner.crashRetries + 1
  firstInTime : ∀ before crash, firstCrash before = none → InTime runner before crash
  retried : ∀ before a after crash, o.recovery.log = before ++ a :: after → a.crash = some crash →
    (after ≠ [] ↔ Allowed runner before crash)
  replacements : o.recovery.log.countP AttemptLog.replaces ≤ 1
  replaceable : ∀ a ∈ o.recovery.log, a.replaces → runner.forceEraseOnRetry ∧ runner.reinstall ≠ .overwrite
  billed : o.recovery.billed = (recoverySpans o.recovery.log o.endedAt).map seconds
  disjoint : (recoverySpans o.recovery.log o.endedAt).Pairwise fun a b => a.2 ≤ b.1
  forward : ∀ span ∈ recoverySpans o.recovery.log o.endedAt, span.1 ≤ span.2
  raised : ∀ fault, o.ended = .raised fault → ∀ crash, fault ≠ .crash crash
  failed : ∀ cause, o.ended = .failed cause →
    o.recovery.lastCrash.isSome ∧ ∃ before a, o.recovery.log = before ++ [a] ∧ Explains runner before a cause
  gaveUp : ∀ cause, o.gaveUp = some cause →
    cause = .devicePreparation ∧ o.ended = .failed .deviceTimeout ∨
      (∃ budget, cause = .runBudget budget) ∧ o.ended = .failed .runBudget

/-! ## The clock goes on -/

theorem Later.refl (st : σ) : world.Later st st := ⟨le_rfl, id⟩

theorem Later.trans {a b c : σ} (h : world.Later a b) (h' : world.Later b c) : world.Later a c :=
  ⟨h.time.trans h'.time, fun hGiven => h'.givenUp (h.givenUp hGiven)⟩

theorem later_addRecoveryTime (t : ℚ) (st : σ) :
    world.Later st (world.setShared ((world.shared st).addRecoveryTime t) st) := by
  refine ⟨(world.time_set _ _).ge, fun hGiven => ?_⟩
  rw [world.shared_set]
  exact hGiven

/-! ## The books of a recovery -/

/-- Spans that are over by a time, one after the other. -/
structure Tidy (spans : List (ℚ × ℚ) × Option ℚ) (now : ℚ) : Prop where
  disjoint : spans.1.Pairwise fun a b => a.2 ≤ b.1
  closed : ∀ span ∈ spans.1, span.1 ≤ span.2 ∧ span.2 ≤ now
  opened : ∀ started ∈ spans.2, started ≤ now ∧ ∀ span ∈ spans.1, span.2 ≤ started

theorem Tidy.later {spans : List (ℚ × ℚ) × Option ℚ} {now then_ : ℚ} (h : Tidy spans now) (hLater : now ≤ then_) :
    Tidy spans then_ where
  disjoint := h.disjoint
  closed span hSpan := ⟨(h.closed span hSpan).1, (h.closed span hSpan).2.trans hLater⟩
  opened started hStarted := ⟨(h.opened started hStarted).1.trans hLater, (h.opened started hStarted).2⟩

theorem Tidy.close {spans : List (ℚ × ℚ)} {started now : ℚ} (h : Tidy (spans, some started) now) :
    Tidy (spans ++ [(started, now)], none) now := by
  obtain ⟨hStarted, hBefore⟩ := h.opened started rfl
  refine ⟨?_, ?_, nofun⟩
  · rw [List.pairwise_append]
    refine ⟨h.disjoint, List.pairwise_singleton _ _, ?_⟩
    intro span hSpan last hLast
    rw [List.mem_singleton.mp hLast]
    exact hBefore span hSpan
  · intro span hSpan
    obtain hSpan | hSpan := List.mem_append.mp hSpan
    · exact h.closed span hSpan
    · rw [List.mem_singleton.mp hSpan]
      exact ⟨hStarted, le_rfl⟩

theorem Tidy.open {spans : List (ℚ × ℚ)} {started : Option ℚ} {now : ℚ} (h : Tidy (spans, started) now) :
    Tidy (spans, started.or (some now)) now := by
  refine ⟨h.disjoint, h.closed, ?_⟩
  cases started with
  | some started => exact h.opened
  | none =>
    rintro _ ⟨⟩
    exact ⟨le_rfl, fun span hSpan => (h.closed span hSpan).2⟩

/-- What was billed is the spans that are over, and recovery started where one is not. -/
structure Books (world : World σ) (s : Recovery σ Lease) (spans : List (ℚ × ℚ) × Option ℚ) : Prop where
  started : s.recoveryStarted = spans.2
  billed : s.billed = spans.1.map seconds
  tidy : Tidy spans (world.time s.st)

section Recovering

variable {s : Recovery σ Lease}

theorem endRecovery_eq (s : Recovery σ Lease) : ∃ st, world.Later s.st st ∧
    endRecovery world s = { s with
      recoveryStarted := none
      billed := s.billed ++ (s.recoveryStarted.map fun started => world.time s.st - started).toList
      st } := by
  rw [endRecovery]
  cases hStarted : s.recoveryStarted with
  | none =>
    refine ⟨s.st, .refl _, ?_⟩
    cases s
    simp_all
  | some started =>
    exact ⟨_, (world.later_tick s.st).trans (later_addRecoveryTime _ _), rfl⟩

theorem startRecovery_eq (s : Recovery σ Lease) : ∃ st, world.Later s.st st ∧
    startRecovery world s = { s with recoveryStarted := s.recoveryStarted.or (some (world.time s.st)), st } := by
  rw [startRecovery]
  cases hStarted : s.recoveryStarted with
  | none => exact ⟨_, world.later_tick s.st, rfl⟩
  | some started =>
    refine ⟨s.st, .refl _, ?_⟩
    cases s
    simp_all

end Recovering

/-! ## A crash -/

section Crash

variable {runner : ScenarioRunner world Lease Result Err}

theorem cancelledIf_spec (allowed : Bool) (st : σ) :
    world.Later st (cancelledIf runner allowed st).2 ∧ ((cancelledIf runner allowed st).1 = true → allowed = true) := by
  cases allowed with
  | false => exact ⟨.refl st, id⟩
  | true => exact ⟨runner.later_cancelled st, fun _ => rfl⟩

theorem escalate_later (forced : Bool) (lease : Option Lease) (st : σ) :
    world.Later st (escalate runner forced lease st).2 := by
  cases lease with
  | none => exact .refl st
  | some lz =>
    rw [escalate]
    dsimp only
    split
    · exact (runner.later_stalled lz st).trans (runner.later_request lz _)
    · exact runner.later_stalled lz st

theorem escalateIf_spec (willing forced : Bool) (lease : Option Lease) (st : σ) :
    world.Later st (escalateIf runner willing forced lease st).2 ∧
      ((escalateIf runner willing forced lease st).1 = true → willing = true) := by
  cases willing with
  | false => exact ⟨.refl st, id⟩
  | true => exact ⟨escalate_later forced lease st, fun _ => rfl⟩

/-- The recovery after a crash. -/
def afterCrash (forced : Bool) (lease : Option (Lease × ℚ)) (crash : BackendCrash) (c : CrashLog) (st : σ)
    (s : Recovery σ Lease) : Recovery σ Lease :=
  { s with
    budget := (s.budget.onCrash c.judged s.attempt).2
    lastCrash := some crash
    partialArtifacts := if crash.partialArtifacts = [] then s.partialArtifacts else crash.partialArtifacts
    crashedLease := (lease.map Prod.fst).or s.crashedLease
    recoveryStarted := s.recoveryStarted.or (some c.entered)
    replaced := s.replaced || c.replacement
    log := s.log ++ [⟨forced, lease.map Prod.snd, some c⟩]
    st }

/-- What a crash leads to, by the answers that its log holds. -/
def crashAnswer (attempt : Nat) (decision : RetryDecision) (c : CrashLog) (s : Recovery σ Lease) :
    (Ended Result Err × Recovery σ Lease) ⊕ Recovery σ Lease :=
  if decision.willRetry && !c.exhausted && !c.cancelled then .inr { s with attempt := attempt + 1 }
  else
    .inl (.failed (if c.cancelled then .cancelled
      else if c.exhausted && decision.willRetry then .runBudget
      else if decision.budgetSpent then .budget
      else .attempts), s)

theorem onCrash_cases (forced : Bool) (lease : Option (Lease × ℚ)) (crash : BackendCrash) (s : Recovery σ Lease) :
    ∃ c st, c.entered = world.time s.st ∧ world.Later s.st st ∧
      (c.replacement = true → runner.canReplace = true ∧ s.replaced = false) ∧
      (c.cancelled = true → (s.budget.onCrash c.judged s.attempt).1.willRetry = true ∧ c.exhausted = false) ∧
      onCrash runner forced lease crash s =
        crashAnswer s.attempt (s.budget.onCrash c.judged s.attempt).1 c (afterCrash forced lease crash c st s) := by
  obtain ⟨begun, hBegun, hStart⟩ := @startRecovery_eq σ Lease world s
  have hCancelled := @cancelledIf_spec σ Lease Result Err world runner
  have hEscalate := @escalateIf_spec σ Lease Result Err world runner
  rw [onCrash, hStart]
  dsimp only [World.now]
  refine ⟨⟨_, _, _, _, _⟩, _, rfl, ?_, ?_, ?_, rfl⟩
  · exact ((hBegun.trans (world.later_tick _)).trans (hCancelled _ _).1).trans (hEscalate _ _ _ _).1
  · intro hReplaces
    have hWilling := (hEscalate _ _ _ _).2 hReplaces
    simp only [Bool.and_eq_true, Bool.not_eq_true'] at hWilling
    exact ⟨hWilling.1.2, hWilling.2⟩
  · intro hStops
    have hAllowed := (hCancelled _ _).2 hStops
    simp only [Bool.and_eq_true, Bool.not_eq_true'] at hAllowed
    exact hAllowed

end Crash

/-! ## An attempt -/

def spansOf (log : List AttemptLog) : List (ℚ × ℚ) × Option ℚ := log.foldl spanStep ([], none)

theorem spansOf_snoc (log : List AttemptLog) (a : AttemptLog) : spansOf (log ++ [a]) = spanStep (spansOf log) a := by
  rw [spansOf, List.foldl_append]
  rfl

theorem firstCrash_snoc (log : List AttemptLog) (a : AttemptLog) :
    firstCrash (log ++ [a]) = (firstCrash log).or a.crash := by
  rw [firstCrash, List.findSome?_append]
  cases hCrash : a.crash <;> simp [hCrash, firstCrash]

/-- Every attempt so far has crashed and was to be retried. In the current one the leases came back, or did not yet. -/
structure Trying (runner : ScenarioRunner world Lease Result Err) (leased : Option ℚ) (s : Recovery σ Lease) : Prop where
  attempt : s.attempt = s.log.length + 1
  within : s.log.length ≤ runner.crashRetries
  allowed : ∀ before a after crash, s.log = before ++ a :: after → a.crash = some crash → Allowed runner before crash
  retries : s.budget.retries = runner.crashRetries
  limit : s.budget.budget = runner.crashRecoveryBudget
  deadline : s.budget.deadline =
    (firstCrash s.log).bind fun first => runner.crashRecoveryBudget.map fun budget => first.judged + budget
  replaced : s.replaced = s.log.any AttemptLog.replaces
  once : s.log.countP AttemptLog.replaces ≤ 1
  replaceable : s.replaced = true → runner.canReplace = true
  lastCrash : s.log ≠ [] → s.lastCrash.isSome
  books : Books world s (leaseStep (spansOf s.log) leased)

/-- How the loop ends. -/
structure Closes (runner : ScenarioRunner world Lease Result Err) (ended : Ended Result Err) (s : Recovery σ Lease) :
    Prop where
  attempts : s.log.length ≤ runner.crashRetries + 1
  retried : ∀ before a after crash, s.log = before ++ a :: after → a.crash = some crash →
    (after ≠ [] ↔ Allowed runner before crash)
  replacements : s.log.countP AttemptLog.replaces ≤ 1
  replaceable : ∀ a ∈ s.log, a.replaces → runner.canReplace = true
  raised : ∀ fault, ended = .raised fault → ∀ crash, fault ≠ .crash crash
  failed : ∀ cause, ended = .failed cause →
    s.lastCrash.isSome ∧ ∃ before a, s.log = before ++ [a] ∧ Explains runner before a cause
  books : Books world s (spansOf s.log)

section Attempt

variable {runner : ScenarioRunner world Lease Result Err} {leased : Option ℚ} {s : Recovery σ Lease}

theorem leaseStep_none (spans : List (ℚ × ℚ) × Option ℚ) : leaseStep spans none = spans := rfl

theorem Books.moved {spans : List (ℚ × ℚ) × Option ℚ} {st : σ} (h : Books world s spans) (hLater : world.Later s.st st) :
    Books world { s with st } spans :=
  ⟨h.started, h.billed, h.tidy.later hLater.time⟩

theorem Trying.moved {st : σ} (h : Trying runner leased s) (hLater : world.Later s.st st) :
    Trying runner leased { s with st } :=
  { h with books := h.books.moved hLater }

theorem Trying.cameBack (h : Trying runner none s) :
    Trying runner (some (world.time s.st)) (endRecovery world s) ∧ world.Later s.st (endRecovery world s).st := by
  obtain ⟨st, hLater, hEnd⟩ := @endRecovery_eq σ Lease world s
  obtain ⟨hStarted, hBilled, hTidy⟩ := h.books
  rw [leaseStep_none] at hStarted hBilled hTidy
  rw [hEnd]
  refine ⟨{ h with books := ?_ }, hLater⟩
  rw [hStarted, hBilled]
  generalize spansOf s.log = spans at hTidy
  obtain ⟨closed, opened⟩ := spans
  cases opened with
  | none => exact ⟨rfl, by simp [leaseStep], hTidy.later hLater.time⟩
  | some started => exact ⟨rfl, by simp [leaseStep, seconds], hTidy.close.later hLater.time⟩

theorem Trying.replaces_snoc (h : Trying runner leased s) {a : AttemptLog}
    (hNew : a.replaces = true → runner.canReplace = true ∧ s.replaced = false) :
    (s.log ++ [a]).countP AttemptLog.replaces ≤ 1 ∧
      ∀ b ∈ s.log ++ [a], b.replaces → runner.canReplace = true := by
  constructor
  · rw [List.countP_append, List.countP_singleton]
    split
    · rename_i hReplaces
      have hNone : s.log.countP AttemptLog.replaces = 0 := by
        rw [List.countP_eq_zero]
        have hAny := (hNew hReplaces).2
        rw [h.replaced, List.any_eq_false] at hAny
        exact hAny
      omega
    · exact h.once
  · intro b hMem hReplaces
    obtain hMem | hMem := List.mem_append.mp hMem
    · apply h.replaceable
      rw [h.replaced]
      exact List.any_eq_true.mpr ⟨b, hMem, hReplaces⟩
    · rw [List.mem_singleton.mp hMem] at hReplaces
      exact (hNew hReplaces).1

theorem Trying.retried_snoc (h : Trying runner leased s) {last : AttemptLog}
    (hLast : ∀ crash, last.crash = some crash → ¬Allowed runner s.log crash) :
    ∀ before a after crash, s.log ++ [last] = before ++ a :: after → a.crash = some crash →
      (after ≠ [] ↔ Allowed runner before crash) := by
  intro before a after crash hSplit hCrash
  obtain ⟨rfl, rfl, rfl⟩ | ⟨rest, rfl, hRest⟩ := split_snoc hSplit
  · exact iff_of_false (fun hNe => hNe rfl) (hLast crash hCrash)
  · exact iff_of_true (by simp) (h.allowed before a rest crash hRest hCrash)

theorem Trying.closes (h : Trying runner leased s) {ended : Ended Result Err} {a : AttemptLog} {st : σ}
    (hLeased : a.leased = leased) (hCrash : a.crash = none) (hLater : world.Later s.st st)
    (hRaised : ∀ fault, ended = .raised fault → ∀ crash, fault ≠ .crash crash)
    (hFailed : ∀ cause, ended = .failed cause → s.lastCrash.isSome ∧ Explains runner s.log a cause) :
    Closes runner ended { s with log := s.log ++ [a], st } := by
  have hReplaces : a.replaces = false := by
    rw [AttemptLog.replaces, hCrash]
    rfl
  have hNew : a.replaces = true → runner.canReplace = true ∧ s.replaced = false := by
    rw [hReplaces]
    nofun
  obtain ⟨hOnce, hCan⟩ := h.replaces_snoc hNew
  refine ⟨?_, h.retried_snoc ?_, hOnce, hCan, hRaised, ?_, ?_⟩
  · have := h.within
    simp only [List.length_append, List.length_singleton]
    omega
  · rw [hCrash]
    nofun
  · intro cause hCause
    exact ⟨(hFailed cause hCause).1, s.log, a, rfl, (hFailed cause hCause).2⟩
  · have hSpans : spansOf (s.log ++ [a]) = leaseStep (spansOf s.log) leased := by
      rw [spansOf_snoc, spanStep, hLeased, hCrash, Option.map_none, Option.or_none]
    rw [hSpans]
    exact ⟨h.books.started, h.books.billed, h.books.tidy.later hLater.time⟩

/-! ### The decision -/

theorem inTime_first (runner : ScenarioRunner world Lease Result Err) {before : List AttemptLog} (crash : CrashLog)
    (hFirst : firstCrash before = none) : InTime runner before crash := by
  intro budget hBudget
  rw [hFirst, Option.getD_none]
  have := runner.budget_pos budget hBudget
  linarith

theorem Trying.deadline_eq (h : Trying runner leased s) (c : CrashLog) :
    (s.budget.onCrash c.judged s.attempt).2.deadline =
      runner.crashRecoveryBudget.map fun budget => ((firstCrash s.log).getD c).judged + budget := by
  show s.budget.deadline.or (s.budget.budget.map fun budget => c.judged + budget) = _
  rw [h.deadline, h.limit]
  cases firstCrash s.log with
  | none => rfl
  | some first => cases runner.crashRecoveryBudget <;> rfl

theorem Trying.inTime_iff (h : Trying runner leased s) (c : CrashLog) :
    ((s.budget.onCrash c.judged s.attempt).2.deadline.all fun deadline => c.judged < deadline) = true ↔
      InTime runner s.log c := by
  rw [h.deadline_eq c, InTime]
  cases runner.crashRecoveryBudget <;> simp

theorem Trying.inCount_iff (h : Trying runner leased s) : s.attempt ≤ s.budget.retries ↔ InCount runner s.log := by
  rw [h.attempt, h.retries, InCount]

theorem Trying.willRetry_iff (h : Trying runner leased s) (c : CrashLog) :
    (s.budget.onCrash c.judged s.attempt).1.willRetry = true ↔ InCount runner s.log ∧ InTime runner s.log c := by
  rw [← h.inCount_iff, ← h.inTime_iff c, ← decide_eq_true_iff (p := s.attempt ≤ s.budget.retries), ← Bool.and_eq_true]
  rfl

theorem Trying.budgetSpent_iff (h : Trying runner leased s) (c : CrashLog) :
    (s.budget.onCrash c.judged s.attempt).1.budgetSpent = true ↔ InCount runner s.log ∧ ¬InTime runner s.log c := by
  rw [← h.inCount_iff, ← h.inTime_iff c, ← decide_eq_true_iff (p := s.attempt ≤ s.budget.retries),
    Bool.not_eq_true, ← Bool.not_eq_true', ← Bool.and_eq_true]
  rfl

/-! ### One turn of the loop -/

/-- What a turn leads to: the end of the loop, or the next attempt. -/
def Turned (runner : ScenarioRunner world Lease Result Err) (attempt : Nat) :
    (Ended Result Err × Recovery σ Lease) ⊕ Recovery σ Lease → Prop
  | .inl (ended, last) => Closes runner ended last
  | .inr next => Trying runner none next ∧ next.attempt = attempt + 1

section Handler

variable {lease : Option (Lease × ℚ)} {crash : BackendCrash} {c : CrashLog} {st : σ}

theorem Trying.crashed_books (h : Trying runner leased s) (forced : Bool) (hLease : lease.map Prod.snd = leased)
    (hEntered : c.entered = world.time s.st) (hLater : world.Later s.st st) :
    Books world (afterCrash forced lease crash c st s)
      (spansOf (afterCrash forced lease crash c st s).log) := by
  obtain ⟨hStarted, hBilled, hTidy⟩ := h.books
  have hSpans : spansOf (afterCrash forced lease crash c st s).log =
      ((leaseStep (spansOf s.log) leased).1, (leaseStep (spansOf s.log) leased).2.or (some c.entered)) := by
    rw [← hLease]
    exact spansOf_snoc s.log _
  rw [hSpans]
  refine ⟨?_, hBilled, ?_⟩
  · rw [← hStarted]
    rfl
  · rw [hEntered]
    exact hTidy.open.later hLater.time

theorem Trying.again (h : Trying runner leased s) (forced : Bool) (hLease : lease.map Prod.snd = leased)
    (hEntered : c.entered = world.time s.st) (hLater : world.Later s.st st)
    (hReplaces : c.replacement = true → runner.canReplace = true ∧ s.replaced = false)
    (hAllowed : Allowed runner s.log c) :
    Trying runner none { afterCrash forced lease crash c st s with attempt := s.attempt + 1 } := by
  have hNew := h.replaces_snoc (a := ⟨forced, lease.map Prod.snd, some c⟩) hReplaces
  refine ⟨?_, ?_, ?_, h.retries, h.limit, ?_, ?_, hNew.1, ?_, fun _ => rfl, ?_⟩
  · rw [h.attempt]
    simp [afterCrash]
  · have hCount := hAllowed.1
    rw [InCount] at hCount
    simpa [afterCrash] using hCount
  · intro before a after crash hSplit hCrash
    obtain ⟨rfl, rfl, rfl⟩ | ⟨rest, rfl, hRest⟩ := split_snoc hSplit
    · cases hCrash
      exact hAllowed
    · exact h.allowed before a rest crash hRest hCrash
  · show (s.budget.onCrash c.judged s.attempt).2.deadline =
      (firstCrash (s.log ++ [⟨forced, lease.map Prod.snd, some c⟩])).bind _
    rw [h.deadline_eq c, firstCrash_snoc]
    cases firstCrash s.log <;> rfl
  · show (s.replaced || c.replacement) = (s.log ++ [_]).any AttemptLog.replaces
    rw [List.any_append, h.replaced]
    simp [AttemptLog.replaces]
  · intro hReplaced
    obtain hBefore | hNow := Bool.or_eq_true_iff.mp hReplaced
    · exact h.replaceable hBefore
    · exact (hReplaces hNow).1
  · have hBooks : Books world (afterCrash forced lease crash c st s) (spansOf (afterCrash forced lease crash c st s).log) :=
      h.crashed_books forced hLease hEntered hLater
    exact ⟨hBooks.started, hBooks.billed, hBooks.tidy⟩

theorem Trying.stopped (h : Trying runner leased s) (forced : Bool) (hLease : lease.map Prod.snd = leased)
    (hEntered : c.entered = world.time s.st) (hLater : world.Later s.st st)
    (hReplaces : c.replacement = true → runner.canReplace = true ∧ s.replaced = false)
    (hStops : ¬Allowed runner s.log c) {cause : Cause}
    (hExplains : Explains runner s.log ⟨forced, lease.map Prod.snd, some c⟩ cause) :
    Closes runner (.failed cause) (afterCrash forced lease crash c st s) := by
  have hNew := h.replaces_snoc (a := ⟨forced, lease.map Prod.snd, some c⟩) hReplaces
  refine ⟨?_, h.retried_snoc ?_, hNew.1, hNew.2, nofun, ?_, h.crashed_books forced hLease hEntered hLater⟩
  · have := h.within
    simp only [afterCrash, List.length_append, List.length_singleton]
    omega
  · rintro _ ⟨⟩
    exact hStops
  · rintro _ ⟨⟩
    exact ⟨rfl, s.log, _, rfl, hExplains⟩

theorem Trying.answered (h : Trying runner leased s) (forced : Bool) (hLease : lease.map Prod.snd = leased)
    (hEntered : c.entered = world.time s.st) (hLater : world.Later s.st st)
    (hReplaces : c.replacement = true → runner.canReplace = true ∧ s.replaced = false)
    (hCancelled : c.cancelled = true →
      (s.budget.onCrash c.judged s.attempt).1.willRetry = true ∧ c.exhausted = false) :
    Turned runner s.attempt (crashAnswer s.attempt (s.budget.onCrash c.judged s.attempt).1 c
      (afterCrash forced lease crash c st s)) := by
  have hRetry := h.willRetry_iff c
  have hSpent := h.budgetSpent_iff c
  generalize (s.budget.onCrash c.judged s.attempt).1 = decision at hRetry hSpent hCancelled
  rw [crashAnswer]
  split
  · rename_i hWilling
    simp only [Bool.and_eq_true, Bool.not_eq_true'] at hWilling
    obtain ⟨⟨hWill, hRun⟩, hGoesOn⟩ := hWilling
    obtain ⟨hCount, hTime⟩ := hRetry.mp hWill
    exact ⟨h.again forced hLease hEntered hLater hReplaces ⟨hCount, hTime, hRun, hGoesOn⟩, rfl⟩
  · rename_i hUnwilling
    have hStops : ¬Allowed runner s.log c := by
      rintro ⟨hCount, hTime, hRun, hGoesOn⟩
      apply hUnwilling
      rw [hRetry.mpr ⟨hCount, hTime⟩, hRun, hGoesOn]
      rfl
    refine h.stopped forced hLease hEntered hLater hReplaces hStops ?_
    split
    · rename_i hStop
      obtain ⟨hWill, hRun⟩ := hCancelled hStop
      exact ⟨c, rfl, hStop, hRun, hRetry.mp hWill⟩
    · rename_i hGoesOn
      split
      · rename_i hRun
        obtain ⟨hExhausted, hWill⟩ := Bool.and_eq_true_iff.mp hRun
        exact ⟨c, rfl, hExhausted, hRetry.mp hWill⟩
      · rename_i hRun
        split
        · rename_i hOver
          exact ⟨c, rfl, hSpent.mp hOver⟩
        · rename_i hNotOver
          refine ⟨c, rfl, fun hCount => ?_⟩
          by_cases hTime : InTime runner s.log c
          · have hWill := hRetry.mpr ⟨hCount, hTime⟩
            rw [hWill] at hRun hUnwilling
            simp_all
          · exact hNotOver (hSpent.mpr ⟨hCount, hTime⟩)

theorem Trying.onCrash (h : Trying runner leased s) (forced : Bool) (hLease : lease.map Prod.snd = leased)
    (crash : BackendCrash) : Turned runner s.attempt (CrashRecovery.onCrash runner forced lease crash s) := by
  obtain ⟨c, st, hEntered, hLater, hReplaces, hCancelled, hAnswer⟩ := onCrash_cases forced lease crash s
  rw [hAnswer]
  exact h.answered forced hLease hEntered hLater hReplaces hCancelled

end Handler

theorem leaseAttempt_spec (forced : Bool) (st : σ) :
    world.Later st (leaseAttempt runner forced st).2 ∧ ((leaseAttempt runner forced st).1 = .timedOut → forced = true) := by
  have hLater := runner.later_lease forced st
  rw [leaseAttempt]
  revert hLater
  generalize runner.leaseSet forced st = answer
  obtain ⟨fault | lz, after⟩ := answer
  · intro hLater
    cases fault with
    | crash crash => exact ⟨hLater, nofun⟩
    | other e => exact ⟨hLater, nofun⟩
    | deviceTimeout e =>
      cases forced with
      | true => exact ⟨hLater, fun _ => rfl⟩
      | false => exact ⟨hLater, nofun⟩
    | deviceError e =>
      cases forced with
      | false => exact ⟨hLater, nofun⟩
      | true =>
        have hBare := runner.later_lease false after
        revert hBare
        dsimp only
        rw [if_pos rfl]
        generalize runner.leaseSet false after = bare
        obtain ⟨fault | lz, last⟩ := bare
        · exact fun hBare => ⟨hLater.trans hBare, nofun⟩
        · exact fun hBare => ⟨hLater.trans hBare, nofun⟩
  · exact fun hLater => ⟨hLater, nofun⟩

theorem ScenarioRunner.retries_of_forced {attempt : Nat} (hForced : runner.forcesErase attempt = true) : 1 < attempt := by
  simp only [ScenarioRunner.forcesErase, Bool.and_eq_true, decide_eq_true_eq] at hForced
  exact hForced.1.1.1

theorem Trying.crashedBefore (h : Trying runner leased s) (hRetry : 1 < s.attempt) : s.lastCrash.isSome := by
  apply h.lastCrash
  intro hNil
  have := h.attempt
  rw [hNil, List.length_nil] at this
  omega

theorem Trying.onLease (h : Trying runner none s) (forced : Bool) (lz : Lease) :
    Turned runner s.attempt (match runner.runOnLease lz (endRecovery world s).st with
      | (.ok result, st) =>
        .inl (.returned result, { endRecovery world s with
          log := (endRecovery world s).log ++ [⟨forced, some (world.time s.st), none⟩], st })
      | (.error (.crash crash), st) =>
        CrashRecovery.onCrash runner forced (some (lz, world.time s.st)) crash { endRecovery world s with st }
      | (.error fault, st) =>
        .inl (.raised fault, { endRecovery world s with
          log := (endRecovery world s).log ++ [⟨forced, some (world.time s.st), none⟩], st })) := by
  obtain ⟨hBack, -⟩ := h.cameBack
  have hAttempt : (endRecovery world s).attempt = s.attempt := by
    obtain ⟨st, -, hEnd⟩ := @endRecovery_eq σ Lease world s
    rw [hEnd]
  rw [← hAttempt]
  generalize endRecovery world s = s at hBack
  have hRun := runner.later_run lz s.st
  generalize runner.runOnLease lz s.st = answer at hRun
  obtain ⟨fault | result, st⟩ := answer
  · cases fault with
    | crash crash => exact (hBack.moved hRun).onCrash forced rfl crash
    | deviceTimeout e => exact hBack.closes rfl rfl hRun (by rintro _ ⟨⟩; nofun) nofun
    | deviceError e => exact hBack.closes rfl rfl hRun (by rintro _ ⟨⟩; nofun) nofun
    | other e => exact hBack.closes rfl rfl hRun (by rintro _ ⟨⟩; nofun) nofun
  · exact hBack.closes rfl rfl hRun nofun nofun

theorem Trying.turn (h : Trying runner none s) : Turned runner s.attempt (attemptTurn runner s) := by
  obtain ⟨hLater, hForced⟩ := @leaseAttempt_spec σ Lease Result Err world runner (runner.forcesErase s.attempt) s.st
  rw [attemptTurn]
  generalize leaseAttempt runner (runner.forcesErase s.attempt) s.st = answer at hLater hForced
  obtain ⟨lz | _ | fault, st⟩ := answer
  · exact (h.moved hLater).onLease (runner.forcesErase s.attempt) lz
  · have hErase := hForced rfl
    refine h.closes rfl rfl hLater nofun ?_
    rintro _ ⟨⟩
    exact ⟨h.crashedBefore (runner.retries_of_forced hErase), hErase, rfl, rfl⟩
  · cases fault with
    | crash crash => exact (h.moved hLater).onCrash _ rfl crash
    | deviceTimeout e => exact h.closes rfl rfl hLater (by rintro _ ⟨⟩; nofun) nofun
    | deviceError e => exact h.closes rfl rfl hLater (by rintro _ ⟨⟩; nofun) nofun
    | other e => exact h.closes rfl rfl hLater (by rintro _ ⟨⟩; nofun) nofun

theorem Trying.attempts (h : Trying runner none s) {remaining : Nat}
    (hRange : remaining + s.attempt = runner.crashRetries + 2) :
    Closes runner (CrashRecovery.attempts runner remaining s).1 (CrashRecovery.attempts runner remaining s).2 := by
  induction remaining generalizing s with
  | zero =>
    have := h.attempt
    have := h.within
    omega
  | succ remaining ih =>
    have hTurn := h.turn
    rw [CrashRecovery.attempts]
    generalize attemptTurn runner s = turn at hTurn
    cases turn with
    | inl ended => exact hTurn
    | inr next =>
      apply ih hTurn.1
      rw [hTurn.2]
      omega

end Attempt

/-! ## The end of a scenario -/

/-- The cause that an end gives the run up for. -/
def gaveUpFor (budget : Option ℚ) : Ended Result Err → Option GiveUpCause
  | .failed .deviceTimeout => some .devicePreparation
  | .failed .runBudget => some (.runBudget budget)
  | _ => none

theorem gaveUpFor_eq_some {budget : Option ℚ} {ended : Ended Result Err} {cause : GiveUpCause}
    (h : gaveUpFor budget ended = some cause) :
    cause = .devicePreparation ∧ ended = .failed .deviceTimeout ∨
      (∃ budget, cause = .runBudget budget) ∧ ended = .failed .runBudget := by
  unfold gaveUpFor at h
  split at h
  · cases h
    exact .inl ⟨rfl, rfl⟩
  · cases h
    exact .inr ⟨⟨_, rfl⟩, rfl⟩
  · cases h

theorem finish_eq (ended : Ended Result Err) (s : Recovery σ Lease) :
    ∃ st, finish world ended s =
        { ended
          endedAt := world.time s.st
          recovery := { endRecovery world s with st }
          gaveUp := gaveUpFor (world.shared (endRecovery world s).st).budget ended } ∧
      ((gaveUpFor (world.shared (endRecovery world s).st).budget ended).isSome →
        (world.shared st).givenUpCause.isSome) := by
  have hFinish : finish world ended s =
      (gaveUpFor (world.shared (endRecovery world s).st).budget ended).elim
        { ended, endedAt := world.time s.st, recovery := endRecovery world s } fun cause =>
        { ended
          endedAt := world.time s.st
          recovery := markGivenUp world cause (endRecovery world s)
          gaveUp := some cause } := by
    cases ended with
    | failed cause => cases cause <;> rfl
    | _ => rfl
  rw [hFinish]
  generalize gaveUpFor (world.shared (endRecovery world s).st).budget ended = gaveUp
  cases gaveUp with
  | none => exact ⟨_, rfl, (by rintro ⟨⟩)⟩
  | some cause =>
    refine ⟨_, rfl, fun _ => ?_⟩
    rw [world.shared_set, RunCrashRecoveryBudget.markGivenUp]
    dsimp only
    cases (world.shared (endRecovery world s).st).givenUpCause <;> rfl

section Finish

variable {runner : ScenarioRunner world Lease Result Err}

theorem Closes.honest {ended : Ended Result Err} {s : Recovery σ Lease} (h : Closes runner ended s) :
    Honest runner (finish world ended s) := by
  obtain ⟨last, -, hEnd⟩ := @endRecovery_eq σ Lease world s
  obtain ⟨st, hFinish, -⟩ := @finish_eq σ Lease Result Err world ended s
  obtain ⟨hStarted, hBilled, hTidy⟩ := h.books
  have hSpans : recoverySpans s.log (world.time s.st) =
      (spansOf s.log).1 ++ ((spansOf s.log).2.map fun started => (started, world.time s.st)).toList := rfl
  have hClosed : Tidy (recoverySpans s.log (world.time s.st), none) (world.time s.st) := by
    rw [hSpans]
    generalize spansOf s.log = spans at hTidy
    obtain ⟨closed, opened⟩ := spans
    cases opened with
    | none => simpa using hTidy
    | some started => exact hTidy.close
  rw [hFinish, hEnd]
  refine ⟨h.attempts, fun _ => inTime_first runner, h.retried, h.replacements, ?_, ?_, hClosed.disjoint, ?_, h.raised,
    h.failed, fun _ => gaveUpFor_eq_some⟩
  · intro a hMem hReplaces
    have hCan := h.replaceable a hMem hReplaces
    simp only [ScenarioRunner.canReplace, Bool.and_eq_true, decide_eq_true_eq] at hCan
    exact hCan.1
  · show s.billed ++ _ = (recoverySpans s.log (world.time s.st)).map seconds
    rw [hSpans, hBilled, hStarted, List.map_append]
    congr 1
    cases (spansOf s.log).2 <;> rfl
  · intro span hSpan
    exact (hClosed.closed span hSpan).1

theorem honest_unleased {o : Outcome σ Lease Result Err} (hLog : o.recovery.log = []) (hBilled : o.recovery.billed = [])
    (hEnded : (∃ reason, o.ended = .refused reason) ∨ ∃ cause, o.ended = .neverLeased cause)
    (hGaveUp : o.gaveUp = none) : Honest runner o := by
  constructor
  case attempts => rw [hLog]; exact Nat.zero_le _
  case firstInTime => exact fun _ => inTime_first runner
  case retried => rw [hLog]; intro before a after crash hSplit; simp at hSplit
  case replacements => rw [hLog]; exact Nat.zero_le _
  case replaceable => rw [hLog]; nofun
  case billed => rw [hLog, hBilled]; rfl
  case disjoint => rw [hLog]; exact List.Pairwise.nil
  case forward => rw [hLog]; nofun
  case raised => obtain ⟨_, h⟩ | ⟨_, h⟩ := hEnded <;> rw [h] <;> nofun
  case failed => obtain ⟨_, h⟩ | ⟨_, h⟩ := hEnded <;> rw [h] <;> nofun
  case gaveUp => rw [hGaveUp]; nofun

theorem Trying.start (runner : ScenarioRunner world Lease Result Err) (st : σ) :
    Trying runner none
      { budget := ⟨runner.crashRetries, runner.crashRecoveryBudget, none⟩, st : Recovery σ Lease } where
  attempt := rfl
  within := Nat.zero_le _
  allowed before a after crash hSplit := by simp at hSplit
  retries := rfl
  limit := rfl
  deadline := rfl
  replaced := rfl
  once := Nat.zero_le _
  replaceable := nofun
  lastCrash hNe := absurd rfl hNe
  books := ⟨rfl, rfl, List.Pairwise.nil, nofun, nofun⟩

theorem runOne_cases (runner : ScenarioRunner world Lease Result Err) (st : σ) :
    ((runOne runner st).recovery.log = [] ∧ (runOne runner st).recovery.billed = [] ∧
        ((∃ reason, (runOne runner st).ended = .refused reason) ∨ ∃ cause, (runOne runner st).ended = .neverLeased cause) ∧
        (runOne runner st).gaveUp = none) ∨
      (world.shared (runner.preflight st).2).givenUpCause = none ∧
        ∃ ended s, Closes runner ended s ∧ runOne runner st = finish world ended s := by
  rw [runOne]
  generalize runner.preflight st = checked
  obtain ⟨_ | reason, st⟩ := checked
  · dsimp only
    cases hGiven : (world.shared st).givenUpCause with
    | some cause => exact .inl ⟨rfl, rfl, .inr ⟨_, rfl⟩, rfl⟩
    | none =>
      generalize runner.alertGuard st = guarded
      obtain ⟨_ | reason, st⟩ := guarded
      · exact .inr ⟨rfl, _, _, (Trying.start runner st).attempts rfl, rfl⟩
      · exact .inl ⟨rfl, rfl, .inl ⟨_, rfl⟩, rfl⟩
  · exact .inl ⟨rfl, rfl, .inl ⟨_, rfl⟩, rfl⟩

theorem honest_runOne (runner : ScenarioRunner world Lease Result Err) (st : σ) : Honest runner (runOne runner st) := by
  obtain ⟨hLog, hBilled, hEnded, hGaveUp⟩ | ⟨-, ended, s, hCloses, hRun⟩ := runOne_cases runner st
  · exact honest_unleased hLog hBilled hEnded hGaveUp
  · rw [hRun]
    exact hCloses.honest

theorem givenUp_of_gaveUp {st : σ} (h : (runOne runner st).gaveUp.isSome) :
    (world.shared (runOne runner st).recovery.st).givenUpCause.isSome := by
  obtain ⟨-, -, -, hGaveUp⟩ | ⟨-, ended, s, -, hRun⟩ := runOne_cases runner st
  · rw [hGaveUp] at h
    cases h
  · obtain ⟨last, hFinish, hGiven⟩ := @finish_eq σ Lease Result Err world ended s
    rw [hRun, hFinish] at h ⊢
    exact hGiven h

theorem unleased_of_givenUp {st : σ} (h : (world.shared st).givenUpCause.isSome) :
    (runOne runner st).recovery.log = [] := by
  obtain ⟨hLog, -⟩ | ⟨hGiven, -⟩ := runOne_cases runner st
  · exact hLog
  · have hStays := (runner.later_preflight st).givenUp h
    rw [hGiven] at hStays
    cases hStays

end Finish

/-- Every scenario's recovery keeps the law, and once it gives the run up no scenario that begins later is leased. -/
theorem recovery_honest (runner : ScenarioRunner world Lease Result Err) (st : σ) :
    Honest runner (runOne runner st) ∧
      ((runOne runner st).gaveUp.isSome →
        ∀ (later : ScenarioRunner world Lease Result Err) (st' : σ), world.Later (runOne runner st).recovery.st st' →
          (runOne later st').recovery.log = []) := by
  refine ⟨honest_runOne runner st, ?_⟩
  intro hGaveUp later st' hLater
  exact unleased_of_givenUp (hLater.givenUp (givenUp_of_gaveUp hGaveUp))

/-- A run as its clock and its budget. -/
abbrev timed : World (ℚ × RunCrashRecoveryBudget) where
  time := Prod.fst
  tick := id
  shared := Prod.snd
  setShared r st := (st.1, r)
  later_tick _ := ⟨le_rfl, id⟩
  shared_set _ _ := rfl
  time_set _ _ := rfl

abbrev after (seconds : Nat) (st : ℚ × RunCrashRecoveryBudget) : ℚ × RunCrashRecoveryBudget := (st.1 + seconds, st.2)

theorem later_after (seconds : Nat) (st : ℚ × RunCrashRecoveryBudget) : timed.Later st (after seconds st) where
  time := le_add_of_nonneg_right (Nat.cast_nonneg seconds)
  givenUp hGiven := hGiven

/-- A lease takes a second, and the scenario crashes a second later. -/
abbrev crashing : ScenarioRunner timed Unit Unit Unit where
  crashRetries := 5
  crashRecoveryBudget := some 30
  forceEraseOnRetry := true
  reinstall := .clean
  eraseSupported := true
  replacementSupported := true
  preflight st := (none, st)
  alertGuard st := (none, st)
  leaseSet _ st := (.ok (), after 1 st)
  runOnLease _ st := (.error (.crash {}), after 1 st)
  cancelled st := (false, st)
  videoStartStalled _ st := (false, st)
  requestDeviceReplacement _ st := st
  budget_pos budget h := by cases h; norm_num
  later_preflight st := .refl st
  later_alertGuard st := .refl st
  later_lease _ st := later_after 1 st
  later_run _ st := later_after 1 st
  later_cancelled st := .refl st
  later_stalled _ st := .refl st
  later_request _ st := .refl st

/-- The run is given up at the third crash, after two seconds of recovery. -/
theorem crashing_given_up :
    (runOne crashing (0, .new (some 2))).gaveUp = some (.runBudget (some 2)) ∧
      (runOne crashing (0, .new (some 2))).recovery.billed = [1, 1, 0] ∧
      (runOne crashing (runOne crashing (0, .new (some 2))).recovery.st).recovery.log = [] := by
  have hGaveUp : (runOne crashing (0, .new (some 2))).gaveUp = some (.runBudget (some 2)) := by decide +kernel
  refine ⟨hGaveUp, by decide +kernel, ?_⟩
  apply (recovery_honest crashing (0, .new (some 2))).2
  · rw [hGaveUp]
    rfl
  · exact .refl _

end Bajutsu.Runner.CrashRecovery
