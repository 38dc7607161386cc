import Bajutsu.Drivers.Selector
import Bajutsu.Lib.TurnLoop
import Bajutsu.Orchestrator.Polling

/-!
# Condition waits

A wait reads the screen until its condition holds, its time is over, or something else stops it. A settle waits for two
unchanged polls, or, once the app has reported a transition since the wait began, for a while without another one.
-/

namespace Bajutsu.Orchestrator.Waits

open Drivers TurnLoop

variable {σ Tree ε : Type}

def settlePolls : Nat := 2

def transitionQuiescence : ℚ := 3 / 10

/-- What the alert gate does with a poll's tree, and whether it has a note to stop on. -/
structure Gate (σ Tree : Type) where
  observe : Tree → σ → σ
  stuck : σ → Bool

/-- Time does not go back, and the collector only adds to its reports. -/
structure Later (device : Device σ Tree) (reports : σ → List ℚ) (st st' : σ) : Prop where
  time : device.time st ≤ device.time st'
  adds : reports st <+: reports st'

/-- What a wait consults beside its device. A report of the collector is the time a transition was received at. -/
structure Hooks (device : Device σ Tree) where
  reports : σ → List ℚ
  readReports : σ → σ
  gate : Option (Gate σ Tree)
  onInterruptPoll : Option (Tree → σ → Bool × σ)
  heartbeat : Option (ℚ → σ → σ)
  cancelled : σ → Bool × σ
  ordered : ∀ st, (reports st).Pairwise (· ≤ ·)
  later_tick : ∀ st, Later device reports st (device.tick st)
  later_query : ∀ st, Later device reports st (device.query st).2
  later_sleep : ∀ d st, 0 ≤ d → Later device reports st (device.sleep d st)
  later_readReports : ∀ st, Later device reports st (readReports st)
  later_gate : ∀ g ∈ gate, ∀ tree st, Later device reports st (g.observe tree st)
  later_interrupt : ∀ hook ∈ onInterruptPoll, ∀ tree st, Later device reports st (hook tree st).2
  later_heartbeat : ∀ tick ∈ heartbeat, ∀ now st, Later device reports st (tick now st)
  later_cancelled : ∀ st, Later device reports st (cancelled st).2

inductive Raised (ε : Type) where
  | runCancelled
  | indexError
  | other (e : ε)

inductive Reason where
  | stuck
  | interruptFailed
  | timeout
  deriving DecidableEq

/-- A wait without a reason is ok. The reads are all the trees it queried, and the signal is the newest report that a
settle by the signal has seen. -/
structure Waited (Tree : Type) where
  reason : Option Reason
  tree : Tree
  reads : List Tree
  signal : Option ℚ := none

def Waited.ok (waited : Waited Tree) : Bool := waited.reason.isNone

section Hooked

variable {device : Device σ Tree} (hooks : Hooks device)

namespace Hooks

def observe (tree : Tree) (st : σ) : σ :=
  match hooks.gate with
  | none => st
  | some gate => gate.observe tree st

def stuck (st : σ) : Bool := hooks.gate.any fun gate => gate.stuck st

def interrupted (tree : Tree) (st : σ) : Bool × σ :=
  match hooks.onInterruptPoll with
  | none => (false, st)
  | some hook => hook tree st

def interruptedIf (hooked : Bool) (tree : Tree) (st : σ) : Bool × σ :=
  if hooked then hooks.interrupted tree st else (false, st)

def beat (st : σ) : σ :=
  match hooks.heartbeat with
  | none => st
  | some tick =>
    let (now, st) := device.now st
    tick now st

def firstBeat (start : ℚ) (st : σ) : σ :=
  match hooks.heartbeat with
  | none => st
  | some tick => tick start st

/-- A settle by the signal reads in mid-window only if something consumes the read. -/
def watched : Bool := hooks.gate.isSome || hooks.onInterruptPoll.isSome

def observed (st : σ) : Tree × σ :=
  let (tree, st) := device.query st
  (tree, hooks.observe tree st)

end Hooks

/-! ## The waits for a condition of one tree -/

/-- The reads so far, and the state. -/
structure Polling (σ Tree : Type) where
  reads : List Tree
  st : σ

/-- One poll. Only a hooked wait stops for the gate and calls the interrupt hook. -/
def pollTurn (hooked : Bool) (holds : Tree → Except ε Bool) (deadline : ℚ) (s : Polling σ Tree) :
    Except (Raised ε) ((Waited Tree × σ) ⊕ Polling σ Tree) :=
  let (t0, st) := device.now s.st
  let (tree, st) := device.query st
  let reads := s.reads ++ [tree]
  match holds tree with
  | .error e => .error (.other e)
  | .ok true => .ok (.inl ({ reason := none, tree, reads }, st))
  | .ok false =>
    let st := hooks.observe tree st
    if hooked && hooks.stuck st then .ok (.inl ({ reason := some .stuck, tree, reads }, st))
    else
      let (failed, st) := hooks.interruptedIf hooked tree st
      if failed then .ok (.inl ({ reason := some .interruptFailed, tree, reads }, st))
      else
        let (cancelled, st) := hooks.cancelled st
        if cancelled then .error .runCancelled
        else
          let (now, st) := device.now st
          if deadline ≤ now then .ok (.inl ({ reason := some .timeout, tree, reads }, st))
          else .ok (.inr ⟨reads, device.adaptiveSleep t0 (hooks.beat st)⟩)

/-! ## Settling by the signal -/

structure Listening (σ Tree : Type) where
  last : ℚ
  current : Option Tree
  reads : List Tree
  st : σ

def Listening.settledTree (device : Device σ Tree) (s : Listening σ Tree) (st : σ) : Waited Tree × σ :=
  match s.current with
  | some tree => ({ reason := none, tree, reads := s.reads, signal := some s.last }, st)
  | none =>
    let (tree, st) := device.query st
    ({ reason := none, tree, reads := s.reads ++ [tree], signal := some s.last }, st)

/-- The tree on which the interrupt hook asks to stop. -/
def Hooks.stopsOn (current : Option Tree) (st : σ) : Option Tree × σ :=
  match current with
  | none => (none, st)
  | some tree =>
    let (failed, st) := hooks.interrupted tree st
    (if failed then some tree else none, st)

def signalTurn (deadline : ℚ) (s : Listening σ Tree) : Except (Raised ε) ((Waited Tree × σ) ⊕ Listening σ Tree) :=
  let (now, st) := device.now s.st
  if now - s.last < transitionQuiescence then
    let (now, st) := device.now st
    if deadline ≤ now then .ok (.inl (s.settledTree device st))
    else
      let (cancelled, st) := hooks.cancelled st
      if cancelled then .error .runCancelled
      else
        match hooks.stopsOn s.current st with
        | (some tree, st) =>
          .ok (.inl ({ reason := some .interruptFailed, tree, reads := s.reads, signal := some s.last }, st))
        | (none, st) =>
          let (t0, st) := device.now st
          match (hooks.reports st).getLast? with
          | none => .error .indexError
          | some last =>
            let st := hooks.readReports st
            if hooks.watched then
              let (tree, st) := hooks.observed st
              .ok (.inr ⟨last, some tree, s.reads ++ [tree], device.adaptiveSleep t0 (hooks.beat st)⟩)
            else .ok (.inr ⟨last, s.current, s.reads, device.adaptiveSleep t0 (hooks.beat st)⟩)
  else .ok (.inl (s.settledTree device st))

/-- The way into `_wait_settled_by_signal`. -/
def Hooks.listen (last : ℚ) (reads : List Tree) (st : σ) : Listening σ Tree :=
  if hooks.watched then
    let (tree, st) := hooks.observed st
    ⟨last, some tree, reads ++ [tree], st⟩
  else ⟨last, none, reads, st⟩

/-! ## Settling by the tree -/

structure Comparing (σ Tree : Type) where
  previous : Tree
  stable : Nat
  reads : List Tree
  st : σ

/-- A turn of the settle: its end is a result, or the way on to the signal. -/
def settleTurn [DecidableEq Tree] (identified : Tree → Bool) (start deadline : ℚ) (s : Comparing σ Tree) :
    Except (Raised ε) (((Waited Tree × σ) ⊕ Listening σ Tree) ⊕ Comparing σ Tree) :=
  if s.stable < settlePolls then
    let events := hooks.reports s.st
    let st := hooks.readReports s.st
    match events.getLast?.filter fun last => start ≤ last with
    | some last => .ok (.inl (.inr (hooks.listen last s.reads st)))
    | none =>
      let (now, st) := device.now st
      if deadline ≤ now then .ok (.inl (.inl ({ reason := none, tree := s.previous, reads := s.reads }, st)))
      else
        let (cancelled, st) := hooks.cancelled st
        if cancelled then .error .runCancelled
        else
          let (t0, st) := device.now st
          let (current, st) := hooks.observed st
          let reads := s.reads ++ [current]
          let (failed, st) := hooks.interrupted current st
          if failed then .ok (.inl (.inl ({ reason := some .interruptFailed, tree := current, reads }, st)))
          else
            let st := device.adaptiveSleep t0 (hooks.beat st)
            if current = s.previous && identified current then .ok (.inr ⟨s.previous, s.stable + 1, reads, st⟩)
            else .ok (.inr ⟨current, 0, reads, st⟩)
  else .ok (.inl (.inl ({ reason := none, tree := s.previous, reads := s.reads }, s.st)))

def waitSettled [DecidableEq Tree] (identified : Tree → Bool) (start deadline : ℚ) (fuel : Nat) (st : σ) :
    Option (Except (Raised ε) (Waited Tree × σ)) :=
  let (previous, st) := hooks.observed st
  match loop (settleTurn hooks identified start deadline) fuel ⟨previous, 0, [previous], st⟩ with
  | none => none
  | some (.error e) => some (.error e)
  | some (.ok (.inl result)) => some (.ok result)
  | some (.ok (.inr listening)) => loop (signalTurn hooks deadline) fuel listening

end Hooked

/-! ## A wait step -/

inductive Condition where
  | for_ (sel : Selector)
  | gone (sel : Selector)
  | settled
  | screenChanged

structure Wait where
  condition : Condition
  timeout : ℚ

/-- The floor is what a lane sets. -/
def Wait.effectiveTimeout (w : Wait) (floor : Option ℚ) : ℚ := max w.timeout (max 0 (floor.getD 0))

abbrev Elements := List (Element ℚ)

deriving instance DecidableEq for Element

def identified (elements : Elements) : Bool := elements.any fun el => el.identifier.getD "" ≠ ""

section Waits

variable (fnmatchcase : String → String → Bool) (compile : String → Option (String → Bool))
variable {device : Device σ Elements} (hooks : Hooks device)

/-- `_exists`. -/
def exists_ (sel : Selector) (elements : Elements) : Except ResolveError Bool :=
  (findAll fnmatchcase compile elements sel).map fun found => 1 ≤ found.length

def gone (sel : Selector) (elements : Elements) : Except ResolveError Bool :=
  (exists_ fnmatchcase compile sel elements).map not

def changed (before current : Elements) : Except ResolveError Bool := .ok (current ≠ before)

/-- `_wait`, on all but the network. -/
def wait (floor : Option ℚ) (w : Wait) (fuel : Nat) (st : σ) : Option (Except (Raised ResolveError) (Waited Elements × σ)) :=
  let timeout := w.effectiveTimeout floor
  let (start, st) := device.now st
  let deadline := start + timeout
  let st := hooks.firstBeat start st
  match w.condition with
  | .for_ sel => loop (pollTurn hooks true (exists_ fnmatchcase compile sel) deadline) fuel ⟨[], st⟩
  | .gone sel => loop (pollTurn hooks false (gone fnmatchcase compile sel) deadline) fuel ⟨[], st⟩
  | .settled => waitSettled hooks identified start deadline fuel st
  | .screenChanged =>
    let (before, st) := hooks.observed st
    loop (pollTurn hooks true (changed before) deadline) fuel ⟨[before], st⟩

end Waits

end Bajutsu.Orchestrator.Waits
