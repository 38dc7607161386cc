import Bajutsu.Crawl.Action
import Bajutsu.Lib.Interleaving
import Mathlib.Data.List.MinMax
import Mathlib.Data.Prod.Lex
import Mathlib.Data.String.Basic

/-!
# The crawl's coordinator

The screen map, the frontier and the budgets that the workers of a crawl share behind one lock. Each method
is one statement: it runs whole.
-/

namespace Bajutsu.Crawl

open PyValue Interleaving

/-- How a float is written with a number of decimals, and a string between quotes. -/
structure Spelling where
  fixed : Nat → PyFloat → String
  repr : String → String

namespace Action

variable (spelling : Spelling) (a : Action)

def key : String :=
  match a.kind, a.point with
  | .fill, _ => "fill:" ++ String.intercalate "," (a.fields.map Prod.fst)
  | .tapPoint, some (x, y) => "@@" ++ spelling.fixed 4 x ++ "," ++ spelling.fixed 4 y
  | _, _ => if a.target = "" then "@" ++ a.label.getD "None" ++ "#" ++ toString (a.index.getD 0) else a.target

def describe : String :=
  match a.kind, a.point with
  | .fill, _ => "fill " ++ toString a.fields.length ++ " fields"
  | .tapPoint, some (x, y) =>
    if a.label.getD "" = "" then "tap point (" ++ spelling.fixed 2 x ++ ", " ++ spelling.fixed 2 y ++ ")"
    else "tap tab " ++ spelling.repr (a.label.getD "")
  | kind, _ => kind.text ++ " " ++
    if a.target ≠ "" then a.target else if a.label.getD "" ≠ "" then a.label.getD "" else "?"

end Action

structure Fingerprint where
  value : String
  kind : String
  deriving DecidableEq

structure Node where
  fingerprint : String
  kind : String
  ids : List String
  actions : List String
  blocked : List String

structure Edge where
  src : String
  action : String
  dst : String
  alert : List String

structure Alert where
  path : List String
  buttons : List String

structure ScreenMap where
  nodes : List (String × Node) := []
  edges : List Edge := []
  crashes : List Crash := []
  alerts : List Alert := []
  plan : List (String × List String) := []
  pruned : List Pruned := []
  paths : List (String × List Action) := []
  stopReason : String := ""

structure Work where
  srcFp : String
  action : Action
  srcPath : List Action
  replayNeeded : Bool

/-- The limits of a crawl, and whether it explores a control that many screens share once. -/
structure Settings where
  spelling : Spelling
  maxScreens : Nat
  maxSteps : Nat
  pruneGlobal : Bool

structure Coordinator where
  screenMap : ScreenMap
  pathTo : List (String × List Action) := []
  pending : List (String × List Action) := []
  claimed : List (String × String) := []
  discovering : List String := []
  steps : Nat := 0
  active : Int := 0
  stopped : Bool := false
  failure : List String := []

namespace Coordinator

variable (settings : Settings) (c : Coordinator)

def known (fp : String) : Bool := (get c.screenMap.nodes fp).isSome

/-- The untried actions of a screen. -/
def untried (fp : String) : List Action := (get c.pending fp).getD []

def path (fp : String) : List Action := (get c.pathTo fp).getD []

def emit : Coordinator :=
  { c with screenMap.plan :=
      (c.pending.filter fun item => item.2 ≠ []).map fun item => (item.1, item.2.map (Action.describe settings.spelling)) }

def finish (reason : String) : Coordinator :=
  { c with
    screenMap.stopReason := if c.screenMap.stopReason = "" then reason else c.screenMap.stopReason
    stopped := true }

/-- One action of a screen that is published: pruned where another screen has claimed it, or kept. -/
def claimOne (fp : String) (state : List Action × Coordinator) (a : Action) : List Action × Coordinator :=
  match get state.2.claimed (a.key settings.spelling) with
  | some owner =>
    if owner ≠ fp then
      (state.1, { state.2 with screenMap.pruned := state.2.screenMap.pruned ++
        [Pruned.mk fp (a.describe settings.spelling) (a.key settings.spelling) owner (state.2.path fp ++ [a])] })
    else (state.1 ++ [a], state.2)
  | none => (state.1 ++ [a], { state.2 with claimed := set state.2.claimed (a.key settings.spelling) fp })

def claim (fp : String) (actions : List Action) : List Action × Coordinator :=
  if settings.pruneGlobal then actions.foldl (claimOne settings fp) ([], c) else (actions, c)

/-- Register a screen; gives what is left of its actions to try. -/
def publish (node : Node) (actions : List Action) : List Action × Coordinator :=
  claim settings { c with
    screenMap.nodes := set c.screenMap.nodes node.fingerprint node
    screenMap.paths := set c.screenMap.paths node.fingerprint (c.path node.fingerprint) } node.fingerprint actions

/-- An untried action that can be handed out, and those after it on its screen. -/
structure Offer where
  src : String
  action : Action
  rest : List Action
  replayNeeded : Bool

def offer (replayNeeded : Bool) (fp : String) : Option Offer :=
  match c.untried fp with
  | [] => none
  | action :: rest => some ⟨fp, action, rest, replayNeeded⟩

/-- The first untried action of the screen the worker is on, or of the screen with the shortest path. -/
def choose (current : Option String) : Option Offer :=
  (current.bind (c.offer false)).or
    (((c.pending.map Prod.fst).filterMap (c.offer true)).argmin fun o => toLex ((c.path o.src).length, o.src))

inductive Selected where
  | retire
  | wait
  | work (work : Work)

/-- The pass of the loop after which the worker returns or waits. -/
def selectNextWork (current : Option String) : Coordinator × Selected :=
  if c.stopped then (c, .retire)
  else if settings.maxScreens ≤ c.screenMap.nodes.length then (c.finish "max_screens", .retire)
  else if settings.maxSteps ≤ c.steps then (c.finish "max_steps", .retire)
  else match c.choose current with
    | some o =>
      ({ c with pending := set c.pending o.src o.rest, steps := c.steps + 1, active := c.active + 1 },
        .work ⟨o.src, o.action, c.path o.src, o.replayNeeded⟩)
    | none => if c.active = 0 then (c.finish "completed", .retire) else (c, .wait)

def recordAlert (path : List Action) (dismissed : List String) : Coordinator :=
  { c with screenMap.alerts :=
      c.screenMap.alerts ++ [Alert.mk (path.map (Action.describe settings.spelling)) dismissed] }

def recordCrash (path : List Action) : Coordinator :=
  emit settings { c with
    screenMap.crashes := c.screenMap.crashes ++ [Crash.mk (path.map (Action.describe settings.spelling)) path]
    active := c.active - 1 }

def recordEdge (src : String) (action : Action) (dst : Fingerprint) (dismissed : List String) (path : List Action) :
    Coordinator × Bool :=
  let c := { c with screenMap.edges :=
    c.screenMap.edges ++ [Edge.mk src (action.describe settings.spelling) dst.value dismissed] }
  if !c.known dst.value && !c.discovering.contains dst.value then
    ({ c with discovering := dst.value :: c.discovering, pathTo := set c.pathTo dst.value path }, true)
  else (emit settings { c with active := c.active - 1 }, false)

def finishDiscovery (node : Node) (actions : List Action) : Coordinator × List Action :=
  let (frontier, c) := publish settings c node actions
  (emit settings { c with
    pending := set c.pending node.fingerprint frontier
    discovering := c.discovering.erase node.fingerprint
    active := c.active - 1 }, frontier)

/-- The screen has a list of untried actions, since the action was taken from it. -/
def giveBack (src : String) (action : Action) : Coordinator :=
  { c with pending := set c.pending src (action :: c.untried src), active := c.active - 1 }

def dropScreen (src : String) : Coordinator :=
  { c with pending := set c.pending src [], active := c.active - 1 }

def cancelAction : Coordinator := { c with active := c.active - 1 }

def noteFailure (exc : String) : Coordinator :=
  finish { c with failure := c.failure ++ [exc] }
    (if c.screenMap.stopReason = "" then "completed" else c.screenMap.stopReason)

end Coordinator

open Coordinator

/-- What a worker does next: off the lock with its device, or a method of the coordinator. -/
inductive Statement where
  | device
  | selectNextWork (current : Option String)
  | recordAlert (path : List Action) (dismissed : List String)
  | recordCrash (path : List Action)
  | recordEdge (src : String) (action : Action) (dst : Fingerprint) (dismissed : List String) (path : List Action)
  | finishDiscovery (node : Node) (actions : List Action)
  | giveBack (src : String) (action : Action)
  | dropScreen (src : String)
  | cancelAction
  | noteFailure (exc : String)

/-- What the worker sees of it; `finishDiscovery` tells only the history what it queued. -/
def Reply (ε : Type) : Statement → Type
  | .device => ε
  | .selectNextWork _ => Selected
  | .recordEdge .. => Bool
  | .finishDiscovery .. => List Action
  | _ => Unit

variable {ε : Type}

def exec (settings : Settings) : (i : Statement) → ε → Coordinator → Coordinator × Reply ε i
  | .device, seen, c => (c, seen)
  | .selectNextWork current, _, c => c.selectNextWork settings current
  | .recordAlert path dismissed, _, c => (c.recordAlert settings path dismissed, ())
  | .recordCrash path, _, c => (c.recordCrash settings path, ())
  | .recordEdge src action dst dismissed path, _, c => c.recordEdge settings src action dst dismissed path
  | .finishDiscovery node actions, _, c => c.finishDiscovery settings node actions
  | .giveBack src action, _, c => (c.giveBack src action, ())
  | .dropScreen src, _, c => (c.dropScreen src, ())
  | .cancelAction, _, c => (c.cancelAction, ())
  | .noteFailure exc, _, c => (c.noteFailure exc, ())

end Bajutsu.Crawl
