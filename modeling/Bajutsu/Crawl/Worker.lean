import Bajutsu.Crawl.Bootstrap

/-!
# The workers of a crawl

A worker takes an action from the frontier, tries it on its device, and tells the coordinator how it went. The
protocol says how a reservation may end; the worker of a crawl follows it.
-/

namespace Bajutsu.Crawl

open PyValue Interleaving

/-! ## The protocol -/

/-- What a worker has of the coordinator: a reservation, or one whose new screen it discovers, or one that it will
never give up since it failed. -/
inductive Standing where
  | idle
  | holding (work : Work)
  | discovering (work : Work) (dst : String)
  | stuck

/-- The standing after a selection. -/
def Coordinator.Selected.standing : Coordinator.Selected → Standing
  | .work reserved => .holding reserved
  | _ => .idle

/-- The reservation of a worker that fails stays. -/
def Standing.afterFailure : Standing → Standing
  | .idle => .idle
  | _ => .stuck

variable {ε : Type}

/-- The statements that a worker may run, and where each leaves it. -/
inductive Protocol : Standing → (i : Statement) → Reply ε i → Standing → Prop where
  | device (standing : Standing) (seen : ε) : Protocol standing .device seen standing
  | alert (standing : Standing) (path : List Action) (dismissed : List String) :
      Protocol standing (.recordAlert path dismissed) () standing
  | select (current : Option String) (selected : Coordinator.Selected) :
      Protocol .idle (.selectNextWork current) selected selected.standing
  | crash (work : Work) (path : List Action) : Protocol (.holding work) (.recordCrash path) () .idle
  | known (work : Work) (src : String) (action : Action) (dst : Fingerprint) (dismissed : List String)
      (path : List Action) : Protocol (.holding work) (.recordEdge src action dst dismissed path) false .idle
  | found (work : Work) (src : String) (action : Action) (dst : Fingerprint) (dismissed : List String)
      (path : List Action) :
      Protocol (.holding work) (.recordEdge src action dst dismissed path) true (.discovering work dst.value)
  | discovered (work : Work) (node : Node) (actions frontier : List Action) :
      Protocol (.discovering work node.fingerprint) (.finishDiscovery node actions) frontier .idle
  | giveBack (work : Work) : Protocol (.holding work) (.giveBack work.srcFp work.action) () .idle
  | dropScreen (work : Work) : Protocol (.holding work) (.dropScreen work.srcFp) () .idle
  | cancel (work : Work) : Protocol (.holding work) .cancelAction () .idle
  | fail (standing : Standing) (exc : String) : Protocol standing (.noteFailure exc) () standing.afterFailure

/-- Workers of any kind that follow the protocol. -/
structure Crew (ε κ τ : Type) where
  start : κ → τ
  next : τ → Option ((i : Statement) × (Reply ε i → τ))
  standing : τ → Standing
  starts : ∀ lane, standing (start lane) = .idle
  follows : ∀ p i rest (reply : Reply ε i), next p = some ⟨i, rest⟩ → Protocol (standing p) i reply (standing (rest reply))

def Crew.machine {κ τ : Type} (settings : Settings) (crew : Crew ε κ τ) :
    Machine Coordinator Statement (Reply ε) ε κ τ where
  exec := exec settings
  start := crew.start
  next := crew.next

/-! ## The worker of a crawl -/

/-- What device work raised: a selector or tap that does not resolve, a device's failure, or anything else. -/
inductive Raised where
  | selector
  | device (message : String)
  | other (message : String)

/-- What a worker's device work comes to, each kind when it is done. -/
structure World where
  factory : Option String
  replay : Except Raised Bool
  act : Except Raised (List Element × List String)
  alive : Except String Bool
  guide : Except String (List Action)
  heal : Option String

/-- The lane left on the start screen, or one that builds its device first. -/
inductive Lane where
  | primary
  | extra

/-- Where a worker is in its loop. -/
inductive Place where
  | building
  | selecting (current : Option String) (errors : Nat)
  | trying (work : Work) (errors : Nat)
  | givingBack (work : Work) (errors : Nat) (fault : Bool)
  | healing (errors : Nat)
  | dropping (work : Work) (errors : Nat)
  | cancelling (work : Work) (errors : Nat)
  | alerting (work : Work) (elements : List Element) (dismissed : List String) (alive : Bool)
  | crashing (work : Work)
  | edging (work : Work) (elements : List Element) (dismissed : List String)
  | discovering (work : Work) (elements : List Element)
  | finishing (work : Work) (elements : List Element) (actions : List Action)
  | failing (standing : Standing) (exc : String)
  | failed (standing : Standing)
  | retired
  | faulted

/-- Whether a device's fault is the pool's to absorb, and whether a lane can be healed. -/
structure Pool where
  isolate : Bool
  recover : Bool

def maxWorkerDeviceErrors : Nat := 3

section Worker

variable (rt : Runtime) (spelling : Spelling) (pool : Pool)

def Place.standing : Place → Standing
  | .building => .idle
  | .selecting .. => .idle
  | .trying work _ => .holding work
  | .givingBack work .. => .holding work
  | .healing _ => .idle
  | .dropping work _ => .holding work
  | .cancelling work _ => .holding work
  | .alerting work .. => .holding work
  | .crashing work => .holding work
  | .edging work .. => .holding work
  | .discovering work elements => .discovering work (fingerprint rt elements).value
  | .finishing work elements _ => .discovering work (fingerprint rt elements).value
  | .failing standing _ => standing
  | .failed standing => standing
  | .retired => .idle
  | .faulted => .idle

def Work.path (work : Work) : List Action := work.srcPath ++ [work.action]

/-- The step is replayed to where that is needed, and performed; nothing when the replay no longer resolves. -/
def World.tried (world : World) (work : Work) : Except Raised (Option (List Element × List String)) :=
  if work.replayNeeded then
    world.replay.bind fun resolves => if resolves then world.act.map some else .ok none
  else world.act.map some

def afterAlert (work : Work) (elements : List Element) (dismissed : List String) (alive : Bool) : Place :=
  if alive then .edging work elements dismissed else .crashing work

/-- The arm of the loop for what the device work came to. -/
def afterTrying (work : Work) (errors : Nat) (world : World) : Place :=
  match world.tried work with
  | .error .selector => .cancelling work errors
  | .error (.device message) =>
    if pool.isolate then .givingBack work errors true else .failing (.holding work) message
  | .error (.other message) => .failing (.holding work) message
  | .ok none => if pool.isolate then .givingBack work errors false else .dropping work errors
  | .ok (some (elements, dismissed)) =>
    match world.alive with
    | .error message => .failing (.holding work) message
    | .ok alive =>
      if dismissed = [] then afterAlert work elements dismissed alive else .alerting work elements dismissed alive

/-- A third fault in a row retires the worker. -/
def afterGiveBack (errors : Nat) (fault : Bool) : Place :=
  if maxWorkerDeviceErrors ≤ errors + 1 then .faulted
  else if fault && pool.recover then .healing (errors + 1)
  else .selecting none (errors + 1)

def nextStatement : Place → Option ((i : Statement) × (Reply World i → Place))
  | .building => some ⟨.device, fun world : World =>
      match world.factory with
      | some exc => .failing .idle exc
      | none => .selecting none 0⟩
  | .selecting current errors => some ⟨.selectNextWork current, fun
      | .retire => .retired
      | .wait => .selecting current errors
      | .work reserved => .trying reserved errors⟩
  | .trying work errors => some ⟨.device, fun world : World => afterTrying pool work errors world⟩
  | .givingBack work errors fault => some ⟨.giveBack work.srcFp work.action, fun _ => afterGiveBack pool errors fault⟩
  | .healing errors => some ⟨.device, fun world : World =>
      match world.heal with
      | some exc => .failing .idle exc
      | none => .selecting none errors⟩
  | .dropping work errors => some ⟨.dropScreen work.srcFp, fun _ => .selecting none errors⟩
  | .cancelling _ errors => some ⟨.cancelAction, fun _ => .selecting none errors⟩
  | .alerting work elements dismissed alive =>
    some ⟨.recordAlert work.path dismissed, fun _ => afterAlert work elements dismissed alive⟩
  | .crashing work => some ⟨.recordCrash work.path, fun _ => .selecting none 0⟩
  | .edging work elements dismissed =>
    some ⟨.recordEdge work.srcFp work.action (fingerprint rt elements) dismissed work.path, fun isNew : Bool =>
      if isNew then .discovering work elements else .selecting (some (fingerprint rt elements).value) 0⟩
  | .discovering work elements => some ⟨.device, fun world : World =>
      match world.guide with
      | .error exc => .failing (.discovering work (fingerprint rt elements).value) exc
      | .ok actions => .finishing work elements actions⟩
  | .finishing _ elements actions =>
    some ⟨.finishDiscovery (nodeOf elements spelling (fingerprint rt elements) actions) actions,
      fun _ => .selecting (some (fingerprint rt elements).value) 0⟩
  | .failing standing exc => some ⟨.noteFailure exc, fun _ => .failed standing.afterFailure⟩
  | .failed _ => none
  | .retired => none
  | .faulted => none

def startPlace (startFp : Option String) : Lane → Place
  | .primary => .selecting startFp 0
  | .extra => .building

theorem standing_afterTrying (work : Work) (errors : Nat) (world : World) :
    (afterTrying pool work errors world).standing rt = .holding work := by
  rw [afterTrying]
  split
  · rfl
  · split
    · rfl
    · rfl
  · rfl
  · split
    · rfl
    · rfl
  · split
    · rfl
    · split
      · rw [afterAlert]
        split
        · rfl
        · rfl
      · rfl

theorem standing_afterGiveBack (errors : Nat) (fault : Bool) :
    (afterGiveBack pool errors fault).standing rt = .idle := by
  rw [afterGiveBack]
  split
  · rfl
  · split
    · rfl
    · rfl

theorem nextStatement_follows (p : Place) (i : Statement) (rest : Reply World i → Place) (reply : Reply World i)
    (h : nextStatement rt spelling pool p = some ⟨i, rest⟩) :
    Protocol (p.standing rt) i reply ((rest reply).standing rt) := by
  cases p with
  | building =>
    cases h
    change World at reply
    cases hFactory : reply.factory with
    | some exc => simpa only [hFactory] using .device _ _
    | none => simpa only [hFactory] using .device _ _
  | selecting current errors =>
    cases h
    change Coordinator.Selected at reply
    cases reply with
    | retire => exact .select current .retire
    | wait => exact .select current .wait
    | work reserved => exact .select current (.work reserved)
  | trying work errors =>
    cases h
    change World at reply
    change Protocol _ .device reply ((afterTrying pool work errors reply).standing rt)
    rw [standing_afterTrying]
    exact .device _ _
  | givingBack work errors fault =>
    cases h
    change Protocol _ _ _ ((afterGiveBack pool errors fault).standing rt)
    rw [standing_afterGiveBack]
    exact .giveBack work
  | healing errors =>
    cases h
    change World at reply
    cases hHeal : reply.heal with
    | some exc => simpa only [hHeal] using .device _ _
    | none => simpa only [hHeal] using .device _ _
  | dropping work errors =>
    cases h
    exact .dropScreen work
  | cancelling work errors =>
    cases h
    exact .cancel work
  | alerting work elements dismissed alive =>
    cases h
    change Protocol _ _ _ ((afterAlert work elements dismissed alive).standing rt)
    rw [afterAlert]
    split
    · exact .alert _ _ _
    · exact .alert _ _ _
  | crashing work =>
    cases h
    exact .crash work work.path
  | edging work elements dismissed =>
    cases h
    change Bool at reply
    cases reply with
    | false => exact .known work _ _ _ _ _
    | true => exact .found work _ _ _ _ _
  | discovering work elements =>
    cases h
    change World at reply
    cases hGuide : reply.guide with
    | error exc => simpa only [hGuide] using .device _ _
    | ok actions => simpa only [hGuide] using .device _ _
  | finishing work elements actions =>
    cases h
    exact .discovered work (nodeOf elements spelling (fingerprint rt elements) actions) actions reply
  | failing standing exc =>
    cases h
    exact .fail standing exc
  | failed standing => cases h
  | retired => cases h
  | faulted => cases h

/-- The workers of a crawl follow the protocol. -/
def crawlers (startFp : Option String) : Crew World Lane Place where
  start := startPlace startFp
  next := nextStatement rt spelling pool
  standing := Place.standing rt
  starts lane := by
    cases lane with
    | primary => rfl
    | extra => rfl
  follows := nextStatement_follows rt spelling pool

end Worker

end Bajutsu.Crawl
