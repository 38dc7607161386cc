import Bajutsu.Assertions.EvaluateKinds
import Bajutsu.Drivers.PatternReached
import Bajutsu.Orchestrator.Polling
import Mathlib.Data.Rat.Floor

/-!
# Scrolling to a target

One bounded step after the other, until the target is where it is wanted. Two consecutive reads judge the step between
them: it moved the region, carried the target past the viewport, or left the region at its end.
-/

namespace Bajutsu.Orchestrator.Scroll

open Drivers PyValue

abbrev Elements := List (Element ℚ)

abbrev Point := ℚ × ℚ

/-! ## The gesture -/

/-- The way the content moves. -/
inductive Direction where
  | down
  | up
  | right
  | left

inductive Axis where
  | x
  | y

/-- `_REVERSE`, which is `_CONTENT_TO_FINGER` too. -/
def Direction.reverse : Direction → Direction
  | down => up
  | up => down
  | right => left
  | left => right

def Direction.axis : Direction → Axis
  | down => .y
  | up => .y
  | right => .x
  | left => .x

def Direction.towardsZero : Direction → Bool
  | up => true
  | left => true
  | _ => false

def along : Axis → Point → ℚ
  | .x, p => p.1
  | .y, p => p.2

/-- The point on the same line across the axis. -/
def Axis.at (axis : Axis) (p : Point) (v : ℚ) : Point :=
  match axis with
  | x => (v, p.2)
  | y => (p.1, v)

def swipeFraction : ℚ := 1 / 8

def swipeMargin : ℚ := 4

def frameCenter : Frame ℚ → Point
  | (x, y, w, h) => (x + w / 2, y + h / 2)

/-- `_scroll_gesture`: the finger's direction is up or left where the coordinate falls. -/
def scrollGesture (center : Point) (finger : Direction) (amount : Option ℚ) (screen : Point) : Point × Point :=
  let axis := finger.axis
  let dim := along axis screen
  let span := min (amount.getD swipeFraction * dim) (max 0 (dim - 2 * swipeMargin))
  let start := min (max (along axis center) swipeMargin) (dim - swipeMargin)
  let stop := if finger.towardsZero then start - span else start + span
  let (start, stop) :=
    if stop < swipeMargin then (start + (swipeMargin - stop), swipeMargin)
    else if dim - swipeMargin < stop then (start - (stop - (dim - swipeMargin)), dim - swipeMargin)
    else (start, stop)
  (axis.at center start, axis.at center stop)

/-- A coordinate that keeps its distance from both edges of the screen. -/
def Inside (dim v : ℚ) : Prop := swipeMargin ≤ v ∧ v ≤ dim - swipeMargin

def lo : Axis → Frame ℚ → ℚ
  | .x, (x, _, _, _) => x
  | .y, (_, y, _, _) => y

def extent : Axis → Frame ℚ → ℚ
  | .x, (_, _, w, _) => w
  | .y, (_, _, _, h) => h

def unclipped (axis : Axis) (frame bounds : Frame ℚ) : Bool :=
  lo axis bounds < lo axis frame && lo axis frame + extent axis frame < lo axis bounds + extent axis bounds

def isCutOff (axis : Axis) (frame bounds : Frame ℚ) : Bool :=
  lo axis frame < lo axis bounds + extent axis bounds && lo axis bounds < lo axis frame + extent axis frame &&
    !unclipped axis frame bounds

abbrev ViewKey := Option String × Option String

structure RegionView where
  positions : List (ViewKey × ℚ) := []
  inView : List (ViewKey × Frame ℚ) := []
  identities : List (Option String) := []
  cutOff : List (Frame ℚ) := []
  visible : List ViewKey := []

structure RegionScan where
  view : RegionView := {}
  ambiguous : List ViewKey := []

/-- One turn of the loop over the region. -/
def scanElement (axis : Axis) (bounds : Frame ℚ) (seen : RegionScan) (el : Element ℚ) : RegionScan :=
  let key := (el.identifier, el.label)
  if isCutOff axis el.frame bounds then
    { seen with view.cutOff := seen.view.cutOff ++ [el.frame], view.visible := key :: seen.view.visible }
  else if key ∈ seen.ambiguous then seen
  else if (get seen.view.positions key).isSome then
    { ambiguous := key :: seen.ambiguous
      view := { seen.view with positions := pop seen.view.positions key, inView := pop seen.view.inView key } }
  else if unclipped axis el.frame bounds then
    { seen with
      view.positions := set seen.view.positions key (lo axis el.frame)
      view.inView := set seen.view.inView key el.frame
      view.visible := key :: seen.view.visible }
  else { seen with view.positions := set seen.view.positions key (lo axis el.frame) }

def moved (before after : RegionView) : List ViewKey :=
  (before.positions.filter fun item => (get after.positions item.1).any (· ≠ item.2)).map Prod.fst

/-- The identities are compared as multisets. -/
def regionMoved (before after : RegionView) : Bool :=
  moved before after ≠ [] || !before.identities.isPerm after.identities || before.inView.length ≠ after.inView.length

inductive Evidence where
  | nothingCutOff
  | moverStopped
  deriving DecidableEq

def Evidence.text : Evidence → String
  | nothingCutOff => "the region's bounds cut nothing off, so an unchanged read cannot be hiding motion"
  | moverStopped => "an element the loop had watched move is still there and has stopped"

/-- A mover in both views that no larger element excludes. -/
def speaks (axis : Axis) (before after : RegionView) (mover : ViewKey) : Bool :=
  (get after.inView mover).isSome && (get before.inView mover).any fun frame =>
    before.cutOff.all fun c => extent axis c ≤ extent axis frame || contains c frame

def stopped (axis : Axis) (before after : RegionView) (movers : List ViewKey) : Option Evidence :=
  if before.inView ≠ [] && before.cutOff.isEmpty then some .nothingCutOff
  else if movers.any (speaks axis before after) then some .moverStopped
  else none

def overshot (before after : RegionView) : Bool :=
  before.inView ≠ [] && after.inView ≠ [] && before.inView.all fun item => item.1 ∉ after.visible

/-! ## Exceptions -/

/-- Why an `ElementNotFound` was raised. -/
inductive Missing where
  | unresolved (e : ResolveError)
  | overshot (fraction : ℚ)
  | regionEnded (evidence : Evidence)
  | renderUnchanged
  | spent (maxScrolls : Nat) (unobserved : Bool)
  | untappable (maxScrolls : Nat) (why : Missing)
  | byDriver (text : String)

/-- What a driver raises. `AppNotInFront` is an `ElementNotFound` too, and each place that catches these lets it
through. -/
inductive Fault where
  | elementNotFound (text : String)
  | appNotInFront
  | elementNotTappable (text : String)
  | other (text : String)

inductive Raised where
  | elementNotFound (why : Missing)
  | appNotInFront
  | elementNotTappable (text : String)
  | unresolvable (e : ResolveError)
  | other (text : String)

def Fault.raised : Fault → Raised
  | elementNotFound text => .elementNotFound (.byDriver text)
  | appNotInFront => .appNotInFront
  | elementNotTappable text => .elementNotTappable text
  | other text => .other text

def Missing.text (str : ℚ → String) (repr : Selector → String) (to_ : Selector) : Missing → String
  | unresolved e => e.message repr
  | overshot fraction => "scroll: " ++ repr to_ ++ " not found; a step overshot the region — nothing in view " ++
      "survived it — even at " ++ str fraction ++ " of the viewport, the smallest step this call will take"
  | regionEnded evidence => "scroll: " ++ repr to_ ++ " not found; the region did not change and " ++ evidence.text ++
      " (end of content)"
  | renderUnchanged => "scroll: " ++ repr to_ ++ " not found; neither the region nor the rendered screen " ++
      "changed across two steps (end of content)"
  | spent maxScrolls unobserved => "scroll: " ++ repr to_ ++ " not on-screen after " ++ toString maxScrolls ++
      " scroll(s)" ++ (if unobserved then "; whether the region moved could not be observed on the last step, from " ++
        "either its element tree or the rendered screen" else "")
  | untappable maxScrolls why => "scroll: " ++ repr to_ ++ " never became tappable within " ++ toString maxScrolls ++
      " scroll(s) (" ++ why.text str repr to_ ++ ")"
  | byDriver text => text

def ofResolve (e : ResolveError) : Raised :=
  if e.exceptionClass = .elementNotFound then .elementNotFound (.unresolved e) else .unresolvable e

/-! ## The driver -/

inductive Capture where
  | crashed (text : String)
  | failed
  | written (bytes : List UInt8)

/-- `viewport` is there for a `ViewportProvider`, and `readLag` is zero where the driver has none. -/
structure Driver (σ : Type) extends Device σ Elements where
  viewport : Option (σ → Point × σ)
  readLag : σ → ℚ
  scroll : Point → Point → σ → Except Fault Unit × σ
  takesScreenshots : Bool
  screenshot : σ → Capture × σ
  isTappable : Selector → σ → Except Fault Bool × σ
  time_screenshot : ∀ st, time st ≤ time (screenshot st).2

def changePoll : ℚ := 1 / 10

def renderSettle : ℚ := 1

theorem polls_left {deadline before after : ℚ} (h : before < deadline) (hPoll : before + changePoll ≤ after) :
    ⌈(deadline - after) / changePoll⌉₊ < ⌈(deadline - before) / changePoll⌉₊ := by
  have hPos : (0 : ℚ) < changePoll := by norm_num [changePoll]
  have hLeft : 0 < (deadline - before) / changePoll := div_pos (by linarith) hPos
  have hStep : (deadline - after) / changePoll + 1 ≤ (deadline - before) / changePoll := by
    rw [← div_self hPos.ne', ← add_div]
    exact div_le_div_of_nonneg_right (by linarith) hPos.le
  obtain hNone | hSome := le_or_gt ((deadline - after) / changePoll) 0
  · rw [Nat.ceil_eq_zero.mpr hNone]
    exact Nat.ceil_pos.mpr hLeft
  · have hCeil := Nat.ceil_add_one hSome.le
    have := Nat.ceil_le_ceil hStep
    omega

section Loop

variable (fnmatchcase : String → String → Bool) (compile : String → Option (String → Bool))

def region (elements : Elements) (within : Option Selector) (viewport : Point) :
    Except ResolveError (Elements × Frame ℚ) :=
  match within with
  | none => .ok (elements, (0, 0, viewport.1, viewport.2))
  | some sel => do
    match ← findAll fnmatchcase compile elements sel with
    -- No element but the container has its content, or the selector would match two.
    | [container] =>
      return (elements.filter fun el => key el ≠ key container && contains container.frame el.frame, container.frame)
    | _ => return ([], (0, 0, 0, 0))

def regionView (elements : Elements) (within : Option Selector) (viewport : Point) (axis : Axis) :
    Except ResolveError RegionView := do
  let (region, bounds) ← region fnmatchcase compile elements within viewport
  return { (region.foldl (scanElement axis bounds) {}).view with identities := region.map Element.identifier }

def stepEndpoints (elements : Elements) (direction : Direction) (within : Option Selector) (viewport : Point)
    (fraction : ℚ) : Except ResolveError (Point × Point) := do
  let gesture (anchor : Point) := scrollGesture anchor direction.reverse (some fraction) viewport
  match within with
  | some sel => return gesture (frameCenter (← resolveUnique fnmatchcase compile elements sel).frame)
  | none => return gesture (viewport.1 / 2, viewport.2 / 2)

/-- An absent target is none, an ambiguous one raises. -/
def resolveTarget (elements : Elements) (sel : Selector) : Except Raised (Option (Element ℚ)) :=
  match resolveUnique fnmatchcase compile elements sel with
  | .ok el => .ok (some el)
  | .error e => if e.exceptionClass = .elementNotFound then .ok none else .error (ofResolve e)

def centerInViewport (frame : Frame ℚ) (viewport : Point) : Bool :=
  let (cx, cy) := frameCenter frame
  0 ≤ cx ∧ cx ≤ viewport.1 ∧ 0 ≤ cy ∧ cy ≤ viewport.2

variable {σ : Type} (driver : Driver σ) (sha256 : List UInt8 → String)

def screenSize (elements : Elements) (st : σ) : Point × σ :=
  match driver.viewport with
  | some viewport => viewport st
  | none => (Assertions.screenSizeFromElements elements, st)

/-! ## Waiting for a read and for the screen -/

def renderDigest (st : σ) : Except Raised (Option String) × σ :=
  if driver.takesScreenshots then
    match driver.screenshot st with
    | (.crashed text, st) => (.error (.other text), st)
    | (.failed, st) => (.ok none, st)
    | (.written bytes, st) => (.ok (if bytes.isEmpty then none else some (sha256 bytes)), st)
  else (.ok none, st)

theorem time_renderDigest (st : σ) : driver.time st ≤ driver.time (renderDigest driver sha256 st).2 := by
  have h := driver.time_screenshot st
  rw [renderDigest]
  split
  · split
    · rename_i hShot
      rwa [hShot] at h
    · rename_i hShot
      rwa [hShot] at h
    · rename_i hShot
      rwa [hShot] at h
  · exact le_rfl

theorem time_poll (st : σ) : driver.time st + changePoll ≤ driver.time (driver.sleep changePoll st) :=
  driver.time_sleep changePoll st (by norm_num [changePoll])

/-- The loop of `_settled_render`, behind the first capture. -/
def settleFrom (deadline : ℚ) (digest : String) (st : σ) : Except Raised (Option String) × σ :=
  let shot := renderDigest driver sha256 (driver.sleep changePoll st)
  match shot.1 with
  | .ok (some next) =>
    if next = digest then (.ok (some next), shot.2)
    else if deadline ≤ (driver.now shot.2).1 then (.ok none, (driver.now shot.2).2)
    else settleFrom deadline next (driver.now shot.2).2
  | other => (other, shot.2)
termination_by ⌈(deadline - driver.time st) / changePoll⌉₊
decreasing_by
  rename_i hLate
  have hPoll := time_poll driver st
  have hDigest := time_renderDigest driver sha256 (driver.sleep changePoll st)
  have hTick := driver.time_tick shot.2
  have hPos : (0 : ℚ) < changePoll := by norm_num [changePoll]
  simp only [Device.now, not_le] at hLate ⊢
  exact polls_left (by linarith) (by linarith)

def settledRender (st : σ) : Except Raised (Option String) × σ :=
  match renderDigest driver sha256 st with
  | (.ok (some digest), st) =>
    let (now, st) := driver.now st
    settleFrom driver sha256 (now + renderSettle) digest st
  | (other, st) => (other, st)

variable (before : RegionView) (within : Option Selector) (viewport : Point) (axis : Axis)

/-- The loop of `_region_after_step`, with what was read so far. -/
def pollRegion (deadline : ℚ) (tree : Elements) (reads : List Elements) (st : σ) :
    Except Raised Elements × List Elements × σ :=
  if (driver.now st).1 < deadline then
    match regionView fnmatchcase compile tree within viewport axis with
    | .error e => (.error (ofResolve e), reads, (driver.now st).2)
    | .ok view =>
      if (!view.identities.isEmpty || before.identities.isEmpty) && regionMoved before view then
        (.ok tree, reads, (driver.now st).2)
      else
        let read := driver.query (driver.sleep changePoll (driver.now st).2)
        pollRegion deadline read.1 (reads ++ [read.1]) read.2
  else (.ok tree, reads, (driver.now st).2)
termination_by ⌈(deadline - driver.time st) / changePoll⌉₊
decreasing_by
  rename_i hEarly
  have hTick := driver.time_tick st
  have hPoll := time_poll driver (driver.now st).2
  have hQuery := driver.time_query (driver.sleep changePoll (driver.now st).2)
  simp only [Device.now] at hEarly hPoll hQuery ⊢
  exact polls_left hEarly (by linarith)

def regionAfterStep (reads : List Elements) (st : σ) : Except Raised Elements × List Elements × σ :=
  let (tree, st) := driver.query st
  if before.positions.isEmpty && !before.identities.isEmpty then (.ok tree, reads ++ [tree], st)
  else
    let (now, st) := driver.now st
    pollRegion fnmatchcase compile driver before within viewport axis (now + driver.readLag st) tree (reads ++ [tree]) st

/-! ## The loop -/

def stepFraction : ℚ := 3 / 5

/-- The variables of the loop that a read may change, the read before included. -/
structure Loop where
  movers : List ViewKey := []
  fraction : ℚ
  previous : Option RegionView := none
  digest : Option String := none
  reversedStep : Bool := false
  reverseNext : Bool := false
  unobserved : Bool := false

/-- A gesture that was made. -/
structure Gesture where
  lookBack : Bool
  fraction : ℚ

/-- A step that two reads were compared over, and the settled render where it was asked for. -/
structure Step where
  before : RegionView
  after : RegionView
  lookBack : Bool
  render : Option (Option String)

structure Log where
  reads : List Elements
  gestures : List Gesture := []
  steps : List Step := []

/-- What a read comes to, and the render that was asked for. -/
structure Judgement (σ : Type) where
  result : Except Raised Loop
  render : Option (Option String) := none
  st : σ

/-- The render decides where the tree cannot. -/
def judgeRender (loop : Loop) (settled : Option String) : Except Raised Loop :=
  match settled, loop.digest with
  | some settled, some digest =>
    if settled = digest then .error (.elementNotFound .renderUnchanged)
    else .ok { loop with unobserved := false, digest := some settled }
  | settled, _ => .ok { loop with unobserved := true, digest := settled }

def judge (loop : Loop) (previous view : RegionView) (st : σ) : Judgement σ :=
  let loop := { loop with movers := loop.movers ++ moved previous view }
  if !loop.reversedStep && Scroll.overshot previous view then
    if loop.fraction ≤ swipeFraction then ⟨.error (.elementNotFound (.overshot loop.fraction)), none, st⟩
    else
      ⟨.ok { loop with
        fraction := max (loop.fraction / 2) swipeFraction, reverseNext := true, digest := none, unobserved := false },
        none, st⟩
  else if regionMoved previous view then ⟨.ok { loop with digest := none, unobserved := false }, none, st⟩
  else
    match stopped axis previous view loop.movers with
    | some evidence => ⟨.error (.elementNotFound (.regionEnded evidence)), none, st⟩
    | none =>
      let (settled, st) := settledRender driver sha256 st
      match settled with
      | .error e => ⟨.error e, none, st⟩
      | .ok settled => ⟨judgeRender loop settled, some settled, st⟩

/-- Given the frame of the target and the viewport, whether the loop may return. -/
abbrev Stop (σ : Type) := Frame ℚ → Point → σ → Except Fault Bool × σ

variable (to_ : Selector) (direction : Direction) (maxScrolls : Nat) (stop : Stop σ)

/-- Whether the target is resolved and where it is wanted. -/
def arrived (tree : Elements) (st : σ) : Except Raised Bool × σ :=
  match resolveTarget fnmatchcase compile tree to_ with
  | .error e => (.error e, st)
  | .ok none => (.ok false, st)
  | .ok (some target) => ((stop target.frame viewport st).1.mapError Fault.raised, (stop target.frame viewport st).2)

/-- How the loop ended, the tree it looked at last and the state it was in then. -/
structure Outcome (σ : Type) where
  result : Except Raised Unit
  tree : Elements
  looked : σ
  log : Log
  st : σ

/-- The step that the read is behind of, if any, goes into the log. -/
def Log.judged (log : Log) (loop : Loop) (view : RegionView) (render : Option (Option String)) : Log :=
  match loop.previous with
  | none => log
  | some previous => { log with steps := log.steps ++ [⟨previous, view, loop.reversedStep, render⟩] }

def observe (loop : Loop) (view : RegionView) (st : σ) : Judgement σ :=
  match loop.previous with
  | none => ⟨.ok loop, none, st⟩
  | some previous => judge driver sha256 axis loop previous view st

/-- The turns of the loop with so many scrolls left. -/
def scrollFrom (left : Nat) (loop : Loop) (tree : Elements) (log : Log) (st : σ) : Outcome σ :=
  let found := arrived fnmatchcase compile viewport to_ stop tree st
  match found.1 with
  | .error e => ⟨.error e, tree, st, log, found.2⟩
  | .ok true => ⟨.ok (), tree, st, log, found.2⟩
  | .ok false =>
    match regionView fnmatchcase compile tree within viewport axis with
    | .error e => ⟨.error (ofResolve e), tree, st, log, found.2⟩
    | .ok view =>
      let judged := observe driver sha256 axis loop view found.2
      let log := log.judged loop view judged.render
      match judged.result with
      | .error e => ⟨.error e, tree, st, log, judged.st⟩
      | .ok loop =>
        match left with
        | 0 => ⟨.error (.elementNotFound (.spent maxScrolls loop.unobserved)), tree, st, log, judged.st⟩
        | left + 1 =>
          let way := if loop.reverseNext then direction.reverse else direction
          match stepEndpoints fnmatchcase compile tree way within viewport loop.fraction with
          | .error e => ⟨.error (ofResolve e), tree, st, log, judged.st⟩
          | .ok (start, goal) =>
            let log := { log with gestures := log.gestures ++ [⟨loop.reverseNext, loop.fraction⟩] }
            let swiped := driver.scroll start goal judged.st
            match swiped.1 with
            | .error fault => ⟨.error fault.raised, tree, st, log, swiped.2⟩
            | .ok () =>
              let read := regionAfterStep fnmatchcase compile driver view within viewport axis log.reads swiped.2
              let log := { log with reads := read.2.1 }
              match read.1 with
              | .error e => ⟨.error e, tree, st, log, read.2.2⟩
              | .ok next =>
                scrollFrom left { loop with reversedStep := loop.reverseNext, reverseNext := false, previous := some view }
                  next log read.2.2

def scrollToTarget (amount : Option ℚ) (st : σ) : Point × Outcome σ :=
  let (tree, st) := driver.query st
  let (viewport, st) := screenSize driver tree st
  (viewport, scrollFrom fnmatchcase compile driver sha256 within viewport direction.axis to_ direction maxScrolls stop
    maxScrolls { fraction := amount.getD stepFraction } tree { reads := [tree] } st)

/-! ## Tapping what is covered -/

def scrollUntilTappable (st : σ) : Except Raised Unit × σ :=
  let tappable : Stop σ := fun frame viewport st =>
    if centerInViewport frame viewport then driver.isTappable to_ st else (.ok false, st)
  let out := (scrollToTarget fnmatchcase compile driver sha256 within to_ direction maxScrolls tappable none st).2
  match out.result with
  | .error (.elementNotFound why) => (.error (.elementNotFound (.untappable maxScrolls why)), out.st)
  | result => (result, out.st)

def tapRecoveryMaxScrolls : Nat := 3

def tapRecoveryDirections : List Direction := [.down, .up]

variable (actuate : σ → Except Fault Unit × σ)

/-- The directions that are left from the `i`-th on, with what the actuations came to so far. -/
def recoverFrom (i : Nat) (obstruction : String) (acts : List (Except Fault Unit)) (st : σ) :
    List Direction → Except Raised Unit × List (Except Fault Unit) × σ
  | [] => (.error (.elementNotTappable ("still not tappable after a bounded scroll attempt: " ++ obstruction)), acts, st)
  | way :: ways =>
    let scrolled :=
      scrollUntilTappable fnmatchcase compile driver sha256 none to_ way (tapRecoveryMaxScrolls * (i + 1)) st
    match scrolled.1 with
    | .error (.elementNotFound _) => recoverFrom (i + 1) obstruction acts scrolled.2 ways
    | .error e => (.error e, acts, scrolled.2)
    | .ok () =>
      let act := actuate scrolled.2
      match act.1 with
      | .error (.elementNotTappable text) => recoverFrom (i + 1) text (acts ++ [act.1]) act.2 ways
      | result => (result.mapError Fault.raised, acts ++ [act.1], act.2)

def tapWithRecovery (st : σ) : Except Raised Unit × List (Except Fault Unit) × σ :=
  let act := actuate st
  match act.1 with
  | .error (.elementNotTappable text) =>
    recoverFrom fnmatchcase compile driver sha256 to_ actuate 0 text [act.1] act.2 tapRecoveryDirections
  | result => (result.mapError Fault.raised, [act.1], act.2)

end Loop

end Bajutsu.Orchestrator.Scroll
