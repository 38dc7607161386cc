import Bajutsu.Lib.PyValue
import Mathlib.Data.String.Basic

/-!
# The interruption policy store

What the interruption monitor and the resolving reads have answered, declined and given up since the last drain, and
a memo for each prompt that is showing. Every method runs under one lock, so a run is a list of calls, each with
what the clock says. Instants are of any type with a subtraction and an order.
-/

namespace Bajutsu.OnDevice

open PyValue

inductive AlertSurface where
  | native
  | inTree
  deriving DecidableEq

structure InterruptionRule where
  identify : List String
  tap : String
  exclude : List String
  surface : AlertSurface
  deriving DecidableEq

structure AlertPacing (N : Type) where
  pollInterval : N
  retapDelay : N
  maxTaps : Int
  giveUp : N

structure InterruptionPolicy (N : Type) where
  rules : List InterruptionRule
  governs : Bool
  pacing : AlertPacing N

structure GaveUpRecord where
  identify : List String
  surface : AlertSurface
  tap : String
  deriving DecidableEq

/-- Everything recorded since the last drain. The four lists named for a tap have one entry for each answer. -/
structure InterruptionRecords where
  tapped : List String := []
  tappedAlerts : List (List String) := []
  tappedSurfaces : List AlertSurface := []
  declined : List (List String) := []
  banners : List String := []
  tappedSynthesisIds : List (List String) := []
  bannerSynthesisIds : List (List String) := []
  unidentified : List (List String) := []
  gaveUp : List GaveUpRecord := []
  deriving DecidableEq

inductive PressDecision where
  | press
  | withhold
  | stop
  deriving DecidableEq

/-- One showing: a native rule by its identifying labels, an in-tree prompt by the label it taps. -/
structure ShowingKey where
  surface : AlertSurface
  name : List String
  deriving DecidableEq

def ShowingKey.of (rule : InterruptionRule) : ShowingKey :=
  match rule.surface with
  | .native => ⟨.native, rule.identify.mergeSort fun a b => decide (a ≤ b)⟩
  | .inTree => ⟨.inTree, [rule.tap]⟩

structure TreeSignatureEntry where
  label : Option String
  identifier : Option String
  deriving DecidableEq

structure ShowingMemo (N : Type) where
  rule : InterruptionRule
  answered : Bool := false
  taps : Nat := 0
  lastPress : Option N := none
  gaveUp : Bool := false
  declined : Bool := false
  signature : Option (List TreeSignatureEntry) := none
  notHittableSince : Option N := none
  /-- The drain generation of the showing's answered entry, and its index. -/
  entry : Option (Nat × Nat) := none

structure InterruptionPolicyStore (N : Type) where
  policy : InterruptionPolicy N
  records : InterruptionRecords
  memo : List (ShowingKey × ShowingMemo N)
  lastSpringboardCheck : Option N
  generation : Nat

def InterruptionRecords.appendAnswered (records : InterruptionRecords) (label : String) (alert : List String)
    (surface : AlertSurface) (synthesisIds : List String) : InterruptionRecords :=
  { records with
    tapped := records.tapped ++ [label]
    tappedAlerts := records.tappedAlerts ++ [alert]
    tappedSurfaces := records.tappedSurfaces ++ [surface]
    tappedSynthesisIds := records.tappedSynthesisIds ++ [synthesisIds] }

/-- `tappedSynthesisIds[index].append(contentsOf: ids)` -/
def InterruptionRecords.extendAnswered (records : InterruptionRecords) (index : Nat) (ids : List String) :
    InterruptionRecords :=
  { records with tappedSynthesisIds := records.tappedSynthesisIds.modify index (· ++ ids) }

namespace InterruptionPolicyStore

variable {N : Type} (self : InterruptionPolicyStore N)

/-- `_memo[key] ?? ShowingMemo(rule: rule)` -/
def memoOf (key : ShowingKey) (rule : InterruptionRule) : ShowingMemo N := (get self.memo key).getD { rule }

def setPolicy (policy : InterruptionPolicy N) (scenarioStart : Bool) : InterruptionPolicyStore N where
  policy := policy
  records := {}
  memo := if scenarioStart then [] else self.memo
  lastSpringboardCheck := if scenarioStart then none else self.lastSpringboardCheck
  generation := self.generation + 1

def record (label : String) (alert : List String) (surface : AlertSurface) (synthesisIds : List String) :
    InterruptionPolicyStore N :=
  { self with records := self.records.appendAnswered label alert surface synthesisIds }

def recordDeclined (buttons : List String) : InterruptionPolicyStore N :=
  { self with records := { self.records with declined := self.records.declined ++ [buttons] } }

def recordBanner (label : String) (synthesisIds : List String) : InterruptionPolicyStore N :=
  { self with
    records :=
      { self.records with
        banners := self.records.banners ++ [label]
        bannerSynthesisIds := self.records.bannerSynthesisIds ++ [synthesisIds] } }

def recordUnidentified (buttons : List String) : InterruptionPolicyStore N :=
  { self with records := { self.records with unidentified := self.records.unidentified ++ [buttons] } }

/-- The entry of the showing that a press with these ids goes to, if it is still undrained. -/
def extends? (memo : ShowingMemo N) : Option Nat :=
  match memo.entry with
  | some (generation, index) => if generation = self.generation then some index else none
  | none => none

/-- What a press of a showing records. -/
def pressRecords (memo : ShowingMemo N) (rule : InterruptionRule) (alert ids : List String) : InterruptionRecords :=
  if memo.answered then
    match self.extends? memo with
    | some index => self.records.extendAnswered index ids
    | none => self.records
  else self.records.appendAnswered rule.tap alert rule.surface ids

/-- What a press of a showing leaves in the memo. -/
def pressMemo (memo : ShowingMemo N) (signature : Option (List TreeSignatureEntry)) (now : N) : ShowingMemo N :=
  { memo with
    answered := true
    entry := if memo.answered then memo.entry else some (self.generation, self.records.tapped.length)
    taps := memo.taps + 1
    lastPress := some now
    notHittableSince := none
    signature := signature.orElse fun _ => memo.signature }

def notePressLocked (key : ShowingKey) (rule : InterruptionRule) (alert : List String)
    (signature : Option (List TreeSignatureEntry)) (synthesisId : Option String) (now : N) :
    InterruptionPolicyStore N :=
  let memo := self.memoOf key rule
  { self with
    records := self.pressRecords memo rule alert synthesisId.toList
    memo := PyValue.set self.memo key (self.pressMemo memo signature now) }

/-- `giveUpLocked` and the memo written back. -/
def giveUpLocked (key : ShowingKey) (memo : ShowingMemo N) : InterruptionPolicyStore N :=
  if memo.gaveUp then { self with memo := PyValue.set self.memo key memo }
  else
    { self with
      records :=
        { self.records with
          gaveUp := self.records.gaveUp ++ [⟨memo.rule.identify, memo.rule.surface, memo.rule.tap⟩] }
      memo := PyValue.set self.memo key { memo with gaveUp := true } }

def recordMonitorPress (rule : InterruptionRule) (alert : List String) (synthesisId : Option String) (now : N) :
    InterruptionPolicyStore N :=
  self.notePressLocked (.of rule) rule alert none synthesisId now

def notePress (rule : InterruptionRule) (alert : List String) (signature : Option (List TreeSignatureEntry))
    (synthesisId : Option String) (now : N) : InterruptionPolicyStore N :=
  self.notePressLocked (.of rule) rule alert signature synthesisId now

def noteFailedPress (rule : InterruptionRule) (now : N) : InterruptionPolicyStore N :=
  let memo := self.memoOf (.of rule) rule
  { self with memo := PyValue.set self.memo (.of rule) { memo with taps := memo.taps + 1, lastPress := some now } }

def giveUp (rule : InterruptionRule) : InterruptionPolicyStore N :=
  self.giveUpLocked (.of rule) (self.memoOf (.of rule) rule)

def rearmNative (kept : Option InterruptionRule) : InterruptionPolicyStore N :=
  { self with memo := self.memo.filter fun item => item.1.surface ≠ .native || some item.1 = kept.map ShowingKey.of }

def rearmInTree (labels : List String) : InterruptionPolicyStore N :=
  { self with
    memo := self.memo.filter fun item => item.1.surface ≠ .inTree || item.1.name.all fun name => name ∈ labels }

def drain : InterruptionRecords × InterruptionPolicyStore N :=
  (self.records, { self with records := {}, generation := self.generation + 1 })

variable [Sub N] [LT N] [DecidableLT N] [LE N] [DecidableLE N]

def claimSpringboardCheck (force : Bool) (now : N) : Bool × InterruptionPolicyStore N :=
  match self.lastSpringboardCheck with
  | some last =>
    if !force ∧ now - last < self.policy.pacing.pollInterval then (false, self)
    else (true, { self with lastSpringboardCheck := some now })
  | none => (true, { self with lastSpringboardCheck := some now })

def noteNotHittable (rule : InterruptionRule) (now : N) : InterruptionPolicyStore N :=
  let memo := self.memoOf (.of rule) rule
  match memo.notHittableSince with
  | some since =>
    if self.policy.pacing.giveUp ≤ now - since then self.giveUpLocked (.of rule) memo
    else { self with memo := PyValue.set self.memo (.of rule) memo }
  | none => { self with memo := PyValue.set self.memo (.of rule) { memo with notHittableSince := some now } }

/-- The last press was less than the re-tap delay ago. -/
def tooSoon (memo : ShowingMemo N) (now : N) : Bool :=
  match memo.lastPress with
  | some last => now - last < self.policy.pacing.retapDelay
  | none => false

/-- Pressed before, on a screen that is not the one that is read now. -/
def changedScreen (memo : ShowingMemo N) (signature : Option (List TreeSignatureEntry)) : Bool :=
  match memo.lastPress, memo.signature, signature with
  | some _, some tapped, some now => tapped ≠ now
  | _, _, _ => false

def decide (rule : InterruptionRule) (signature : Option (List TreeSignatureEntry)) (now : N) :
    PressDecision × InterruptionPolicyStore N :=
  match get self.memo (.of rule) with
  | none => (.press, self)
  | some memo =>
    if memo.declined || memo.gaveUp then (.stop, self)
    else if self.tooSoon memo now then (.withhold, self)
    else if changedScreen memo signature then
      (.stop, { self with memo := PyValue.set self.memo (.of rule) { memo with declined := true } })
    else if self.policy.pacing.maxTaps ≤ memo.taps then (.stop, self.giveUpLocked (.of rule) memo)
    else (.press, self)

end InterruptionPolicyStore

/-! ## Runs -/

/-- A call of one of the store's methods. -/
inductive Call (N : Type) where
  | setPolicy (policy : InterruptionPolicy N) (scenarioStart : Bool)
  | record (label : String) (alert : List String) (surface : AlertSurface) (synthesisIds : List String)
  | recordDeclined (buttons : List String)
  | recordBanner (label : String) (synthesisIds : List String)
  | recordUnidentified (buttons : List String)
  | recordMonitorPress (rule : InterruptionRule) (alert : List String) (synthesisId : Option String)
  | claimSpringboardCheck (force : Bool)
  | decide (rule : InterruptionRule) (signature : Option (List TreeSignatureEntry))
  | notePress (rule : InterruptionRule) (alert : List String) (signature : Option (List TreeSignatureEntry))
      (synthesisId : Option String)
  | noteFailedPress (rule : InterruptionRule)
  | giveUp (rule : InterruptionRule)
  | noteNotHittable (rule : InterruptionRule)
  | rearmNative (kept : Option InterruptionRule)
  | rearmInTree (labels : List String)
  | drain

section Runs

variable {N : Type} [Sub N] [LT N] [DecidableLT N] [LE N] [DecidableLE N]

/-- What a call leaves, `now` being what the clock says during it. -/
def step (s : InterruptionPolicyStore N) (now : N) : Call N → InterruptionPolicyStore N
  | .setPolicy policy scenarioStart => s.setPolicy policy scenarioStart
  | .record label alert surface synthesisIds => s.record label alert surface synthesisIds
  | .recordDeclined buttons => s.recordDeclined buttons
  | .recordBanner label synthesisIds => s.recordBanner label synthesisIds
  | .recordUnidentified buttons => s.recordUnidentified buttons
  | .recordMonitorPress rule alert synthesisId => s.recordMonitorPress rule alert synthesisId now
  | .claimSpringboardCheck force => (s.claimSpringboardCheck force now).2
  | .decide rule signature => (s.decide rule signature now).2
  | .notePress rule alert signature synthesisId => s.notePress rule alert signature synthesisId now
  | .noteFailedPress rule => s.noteFailedPress rule now
  | .giveUp rule => s.giveUp rule
  | .noteNotHittable rule => s.noteNotHittable rule now
  | .rearmNative kept => s.rearmNative kept
  | .rearmInTree labels => s.rearmInTree labels
  | .drain => s.drain.2

/-- Calls, each with its instant. -/
abbrev Calls (N : Type) := List (N × Call N)

def runCalls (s : InterruptionPolicyStore N) (calls : Calls N) : InterruptionPolicyStore N :=
  calls.foldl (fun s call => step s call.1 call.2) s

end Runs

/-- A new store, with the policy it is created with. -/
def newStore {N : Type} (policy : InterruptionPolicy N) : InterruptionPolicyStore N := ⟨policy, {}, [], none, 0⟩

end Bajutsu.OnDevice
