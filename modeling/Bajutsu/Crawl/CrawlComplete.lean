import Bajutsu.Crawl.CrawlEnds
import Bajutsu.Crawl.Reseeded

/-!
# What a completed crawl has tried

A crawl that reports `completed` has handed out every action that was untried at some time, or has dropped its screen
since the recorded path no longer replays.
-/

namespace Bajutsu.Crawl

open PyValue Interleaving

/-! ## Dropped screens -/

/-- The recorded path no longer resolves. -/
def World.stale (world : World) : Bool :=
  match world.replay with
  | .ok false => true
  | _ => false

def sawStale : Ran World → Bool
  | ⟨_, _, .device, seen⟩ => World.stale seen
  | _ => false

def dropsScreen (fp : String) (event : Ran World) : Bool :=
  match event.stmt with
  | .dropScreen src => src = fp
  | _ => false

def handsOther (fp : String) (note : Nat × Note) : Bool :=
  match note.2 with
  | .handed found _ => found ≠ fp
  | _ => true

/-- A worker dropped the screen at once after its path had turned out stale. -/
def DroppedStale (fp : String) (events : List (Ran World)) : Prop :=
  ∃ before stale drop later, events = before ++ stale :: drop :: later ∧ sawStale stale = true ∧
    dropsScreen fp drop = true

theorem DroppedStale.later {fp : String} {events : List (Ran World)} (h : DroppedStale fp events) (event : Ran World) :
    DroppedStale fp (events ++ [event]) := by
  obtain ⟨before, stale, drop, later, rfl, hStale, hDrop⟩ := h
  exact ⟨before, stale, drop, later ++ [event], by simp, hStale, hDrop⟩

section Drops

variable {settings : Settings} {rt : Runtime} {pool : Pool} {startFp : Option String}

theorem tried_none {world : World} {work : Work} (h : world.tried work = .ok none) : world.replay = .ok false := by
  rw [World.tried] at h
  split at h
  · cases hReplay : world.replay with
    | error raised =>
      rw [hReplay] at h
      cases h
    | ok resolves =>
      rw [hReplay] at h
      cases resolves with
      | false => rfl
      | true =>
        change world.act.map some = .ok none at h
        cases hAct : world.act with
        | error raised =>
          rw [hAct] at h
          cases h
        | ok seen =>
          rw [hAct] at h
          cases h
  · cases hAct : world.act with
    | error raised =>
      rw [hAct] at h
      cases h
    | ok seen =>
      rw [hAct] at h
      cases h

theorem afterTrying_dropping {work w : Work} {errors errors' : Nat} {world : World}
    (h : afterTrying pool work errors world = .dropping w errors') : world.replay = .ok false := by
  rw [afterTrying] at h
  split at h
  · cases h
  · split at h
    · cases h
    · cases h
  · cases h
  · rename_i hTried
    exact tried_none hTried
  · split at h
    · cases h
    · split at h
      · rw [afterAlert] at h
        split at h
        · cases h
        · cases h
      · cases h

theorem afterTrying_ne_failed (work : Work) (errors : Nat) (world : World) (standing : Standing) :
    afterTrying pool work errors world ≠ .failed standing := by
  intro h
  rw [afterTrying] at h
  split at h
  · cases h
  · split at h
    · cases h
    · cases h
  · cases h
  · split at h
    · cases h
    · cases h
  · split at h
    · cases h
    · split at h
      · rw [afterAlert] at h
        split at h
        · cases h
        · cases h
      · cases h

/-- A worker is about to drop a screen only after its device work came to a stale path. -/
theorem next_dropping {p : Place} {i : Statement} {rest : Reply World i → Place} {reply : Reply World i}
    (hNext : nextStatement rt settings.spelling pool p = some ⟨i, rest⟩) {w : Work} {errors : Nat}
    (h : rest reply = .dropping w errors) (n : Nat) (e : World) : sawStale ⟨n, e, i, reply⟩ = true := by
  cases p with
  | building =>
    cases hNext
    change World at reply
    cases hFactory : reply.factory with
    | _ => simp [hFactory] at h
  | selecting current errors' =>
    cases hNext
    change Coordinator.Selected at reply
    cases reply with
    | _ => cases h
  | trying work errors' =>
    cases hNext
    change World at reply
    have hReplay := afterTrying_dropping h
    change World.stale reply = true
    rw [World.stale, hReplay]
  | givingBack work errors' fault =>
    cases hNext
    change afterGiveBack pool errors' fault = _ at h
    rw [afterGiveBack] at h
    split at h
    · cases h
    · split at h
      · cases h
      · cases h
  | healing errors' =>
    cases hNext
    change World at reply
    cases hHeal : reply.heal with
    | _ => simp [hHeal] at h
  | alerting work elements dismissed alive =>
    cases hNext
    change afterAlert work elements dismissed alive = _ at h
    rw [afterAlert] at h
    split at h
    · cases h
    · cases h
  | edging work elements dismissed =>
    cases hNext
    change Bool at reply
    cases reply with
    | _ => cases h
  | discovering work elements =>
    cases hNext
    change World at reply
    cases hGuide : reply.guide with
    | _ => simp [hGuide] at h
  | _ =>
    cases hNext
    try cases h

theorem dropsScreen_of_note {i : Statement} {reply : Reply World i} {fp : String} {n : Nat} {e : World}
    (h : noteOf i reply = .dropped fp) : dropsScreen fp ⟨n, e, i, reply⟩ = true := by
  cases i with
  | dropScreen src =>
    obtain rfl := Note.dropped.inj h
    exact decide_eq_true rfl
  | selectNextWork current =>
    change Coordinator.Selected at reply
    cases reply with
    | _ => cases h
  | recordEdge src action dst dismissed path =>
    change Bool at reply
    cases reply with
    | _ => cases h
  | _ => cases h

theorem dropping_of_drop {p : Place} {i : Statement} {rest : Reply World i → Place} {reply : Reply World i} {n : Nat}
    {e : World} (hNext : nextStatement rt settings.spelling pool p = some ⟨i, rest⟩) {fp : String}
    (h : dropsScreen fp ⟨n, e, i, reply⟩ = true) : ∃ w errors, p = .dropping w errors := by
  cases p with
  | dropping w errors => exact ⟨w, errors, rfl⟩
  | _ =>
    cases hNext
    try cases h

theorem drops_stale {lane : Lane} {events : List (Ran World)} {p : Place}
    (h : Machine.Drives ((crawlers rt settings.spelling pool startFp).machine settings) (startPlace startFp lane) events p) :
    (∀ fp, ∀ event ∈ events, dropsScreen fp event = true → DroppedStale fp events) ∧
      ∀ w errors, p = .dropping w errors → ∃ before stale, events = before ++ [stale] ∧ sawStale stale = true := by
  refine h.concat_induction (P := fun events p =>
    (∀ fp, ∀ event ∈ events, dropsScreen fp event = true → DroppedStale fp events) ∧
      ∀ w errors, p = .dropping w errors → ∃ before stale, events = before ++ [stale] ∧ sawStale stale = true) ?_ ?_
  · refine ⟨fun fp event hMem => absurd hMem List.not_mem_nil, fun w errors hPlace => ?_⟩
    cases lane with
    | _ => cases hPlace
  · intro events mid i rest n e reply hMid hNext
    obtain ⟨hDrops, hDropping⟩ := hMid
    constructor
    · intro fp event hMem hDrop
      obtain hOld | hNew := List.mem_append.mp hMem
      · exact (hDrops fp event hOld hDrop).later _
      · obtain rfl := List.mem_singleton.mp hNew
        obtain ⟨w, errors, rfl⟩ := dropping_of_drop hNext hDrop
        obtain ⟨before, stale, rfl, hStale⟩ := hDropping w errors rfl
        exact ⟨before, stale, _, [], by rw [List.append_assoc, List.singleton_append], hStale, hDrop⟩
    · intro w errors hPlace
      exact ⟨events, _, rfl, next_dropping hNext hPlace n e⟩

/-- A worker that a selection has retired, or that has failed. -/
def Place.ended : Place → Bool
  | .retired => true
  | .failed _ => true
  | _ => false

/-- Only a selection and a failure end a worker so, and both leave the crawl stopped. -/
theorem stopped_of_ended {p : Place} {i : Statement} {rest : Reply World i → Place}
    (hNext : nextStatement rt settings.spelling pool p = some ⟨i, rest⟩) {e : World} {c : Coordinator}
    (h : (rest (exec settings i e c).2).ended = true) : (exec settings i e c).1.stopped = true := by
  cases p with
  | building =>
    cases hNext
    cases hFactory : e.factory with
    | _ => simp [exec, hFactory, Place.ended] at h
  | selecting current errors =>
    cases hNext
    have hSelects := Coordinator.selects settings c current
    change (c.selectNextWork settings current).1.stopped = true
    generalize hReply : (exec settings (.selectNextWork current) e c).2 = reply at h
    change Coordinator.Selected at reply
    change (c.selectNextWork settings current).2 = reply at hReply
    generalize c.selectNextWork settings current = selected at hSelects hReply
    obtain ⟨c', reply'⟩ := selected
    subst hReply
    cases hSelects with
    | stopped hStopped => exact hStopped
    | wait => cases h
    | work => cases h
    | _ => rfl
  | trying work errors =>
    cases hNext
    have hStands := standing_afterTrying rt pool work errors e
    change (afterTrying pool work errors e).ended = true at h
    generalize hPlace : afterTrying pool work errors e = place at hStands h
    cases place with
    | retired => cases hStands
    | failed standing => exact absurd hPlace (afterTrying_ne_failed work errors e standing)
    | _ => cases h
  | givingBack work errors fault =>
    cases hNext
    change (afterGiveBack pool errors fault).ended = true at h
    rw [afterGiveBack] at h
    split at h
    · cases h
    · split at h
      · cases h
      · cases h
  | healing errors =>
    cases hNext
    cases hHeal : e.heal with
    | _ => simp [exec, hHeal, Place.ended] at h
  | alerting work elements dismissed alive =>
    cases hNext
    change (afterAlert work elements dismissed alive).ended = true at h
    rw [afterAlert] at h
    split at h
    · cases h
    · cases h
  | edging work elements dismissed =>
    cases hNext
    generalize (exec settings (.recordEdge work.srcFp work.action (fingerprint rt elements) dismissed work.path) e c).2 =
      reply at h
    change Bool at reply
    cases reply with
    | _ => cases h
  | discovering work elements =>
    cases hNext
    cases hGuide : e.guide with
    | _ => simp [exec, hGuide, Place.ended] at h
  | failing standing exc =>
    cases hNext
    rfl
  | _ =>
    cases hNext
    try cases h

theorem ended_reached {boot : Coordinator} {st : CrawlConfig World Lane Place}
    (h : ((crawlers rt settings.spelling pool startFp).machine settings).Reaches (.init boot) st) {n : Nat} {lane : Lane}
    {p : Place} (hThread : st.threads[n]? = some (lane, p)) (hEnded : p.ended = true) : st.shared.stopped = true := by
  induction h generalizing n lane p with
  | refl => cases hThread
  | tail h hStep ih =>
    obtain hOld | ⟨-, hStart⟩ | ⟨e, q, i, rest, hLabel, hBefore, hNext, hPlace⟩ := Machine.step_thread hStep hThread
    · have hStopped := ih hOld hEnded
      obtain ⟨c, -, rfl⟩ | ⟨m, e, c, p, i, rest, -, hOther, hNext, rfl⟩ := Machine.step_event hStep
      · exact hStopped
      · exact (moves_of_protocol (nextStatement_follows rt settings.spelling pool p i rest _ hNext)).stopped hStopped
    · rw [hStart] at hEnded
      cases lane with
      | _ => cases hEnded
    · obtain ⟨c, hCall, -⟩ | ⟨m, e', c, p, i', rest', hRun, hOther, hNext', rfl⟩ := Machine.step_event hStep
      · exact nomatch hLabel.symm.trans hCall
      · cases hLabel.symm.trans hRun
        obtain ⟨-, rfl⟩ := Prod.mk.inj (Option.some.inj (hBefore.symm.trans hOther))
        cases hNext.symm.trans hNext'
        rw [hPlace] at hEnded
        exact stopped_of_ended hNext hEnded

theorem droppedStale_of_note {boot : Coordinator} {st : CrawlConfig World Lane Place}
    (h : ((crawlers rt settings.spelling pool startFp).machine settings).Reaches (.init boot) st) {n : Nat} {fp : String}
    (hMem : (n, Note.dropped fp) ∈ notes st.history) : DroppedStale fp (Machine.eventsOf n st.history) := by
  have hSound := h.sound (.init boot)
  obtain ⟨event, hEvent, hNote⟩ := List.mem_map.mp hMem
  obtain ⟨hThread, hDropped⟩ := Prod.mk.inj hNote
  have hLess := hSound.thread event hEvent
  obtain ⟨⟨lane, p⟩, hGet⟩ : ∃ thread, st.threads[n]? = some thread :=
    ⟨_, List.getElem?_eq_getElem (hThread ▸ hLess)⟩
  have hOwn : event ∈ Machine.eventsOf n st.history := List.mem_filter.mpr ⟨hEvent, decide_eq_true hThread⟩
  refine (drops_stale (hSound.drives n lane p hGet)).1 fp event hOwn ?_
  obtain ⟨m, e, i, reply⟩ := event
  exact dropsScreen_of_note hDropped

end Drops

/-! ## The return of a crawl -/

/-- The reason the crawl stopped for, else the one that its frontier tells. -/
def finalReason (settings : Settings) (c : Coordinator) : String :=
  if c.screenMap.stopReason ≠ "" then c.screenMap.stopReason
  else if anyPending c = false then "completed"
  else if settings.maxScreens ≤ c.screenMap.nodes.length then "max_screens"
  else "max_steps"

section Returns

variable (settings : Settings) (rt : Runtime) (pool : Pool) (boot : Boot)

/-- The coordinator that the workers start on. -/
def Boot.coordinator : Coordinator := (bootstrap settings rt boot).1

/-- The workers of a crawl that starts so. -/
def Boot.machine : Interleaving.Machine Coordinator Statement (Reply World) World Lane Place :=
  (crawlers rt settings.spelling pool (bootstrap settings rt boot).2).machine settings

/-- The runs in which a crawl returns, and the map that it returns: at once, with nothing to explore, or when all
of its workers have left and none of them failed. -/
inductive Returns : CrawlConfig World Lane Place → ScreenMap → Prop where
  | atOnce (hStart : (bootstrap settings rt boot).2 = none) (hNothing : anyPending (boot.coordinator settings rt) = false) :
      Returns (.init (boot.coordinator settings rt)) (boot.coordinator settings rt).screenMap
  | joined {st} (hStart : (bootstrap settings rt boot).2 ≠ none ∨ anyPending (boot.coordinator settings rt) = true)
      (hReach : (boot.machine settings rt pool).Reaches (.init (boot.coordinator settings rt)) st)
      (hPrimary : ∃ p, (Lane.primary, p) ∈ st.threads)
      (hDone : ∀ thread ∈ st.threads, nextStatement rt settings.spelling pool thread.2 = none)
      (hFine : st.shared.failure = []) :
      Returns st
        (Coordinator.emit settings { st.shared with screenMap.stopReason := finalReason settings st.shared }).screenMap

/-- The crawl starts anew, or continues a saved map as a whole. -/
def Boot.Whole : Boot → Prop
  | .fresh .. => True
  | .resume .. => False
  | .continuing .. => True

/-- The plan of the map that the crawl loads. -/
def Boot.plan : Boot → List (String × List String)
  | .continuing base _ => base.plan
  | .resume base .. => base.plan
  | .fresh .. => []

/-- The recorded path to a screen of the loaded map no longer resolves at the start. -/
def Boot.stale (fp : String) : Boot → Prop
  | .continuing _ walk => walk fp = .stale
  | _ => False

/-- The map is returned as it was loaded, apart from the alerts that its walks met, since none of its
operations could be queued. -/
def Boot.Untouched (returned : ScreenMap) : Boot → Prop
  | .continuing base walk =>
    (∀ fp, reseeded settings rt base.plan walk fp = []) ∧
      returned = { base.toScreenMap with alerts := returned.alerts, stopReason := returned.stopReason }
  | _ => False

def Handed (st : CrawlConfig World Lane Place) (fp : String) (a : Action) : Prop :=
  ∃ n, (n, Note.handed fp a) ∈ notes st.history

def Dropped (st : CrawlConfig World Lane Place) (fp : String) : Prop :=
  ∃ n, DroppedStale fp (Machine.eventsOf n st.history)

/-- What the stop reason of a returned map says of the work that was recorded. -/
structure Accounted (st : CrawlConfig World Lane Place) (returned : ScreenMap) : Prop where
  untried : returned.stopReason = "completed" → ∀ mid fp a,
    (boot.machine settings rt pool).Reaches (.init (boot.coordinator settings rt)) mid →
    (boot.machine settings rt pool).Reaches mid st → a ∈ mid.shared.untried fp → Handed st fp a ∨ Dropped st fp
  plan : returned.stopReason = "completed" → ∀ fp ops entry, get boot.plan fp = some ops → entry ∈ ops →
    (∃ a : Action, a.describe settings.spelling = planKey entry ∧ Handed st fp a) ∨ Dropped st fp ∨ boot.stale fp
  steps : returned.stopReason = "max_steps" →
    (notes st.history).countP (fun note => note.2.handsOut) = settings.maxSteps ∨
      st.history = [] ∧ boot.Untouched settings rt returned

/-- Each entry of the loaded plan has a path that no longer resolves, or a candidate on the screen that its path
leads to; or none has a candidate, and the map does not say that it was completed. -/
def Boot.Rederivable : Boot → Prop
  | .continuing base walk =>
    (∀ fp ops entry, get base.plan fp = some ops → entry ∈ ops →
      walk fp = .stale ∨ ∃ a ∈ reseeded settings rt base.plan walk fp, a.describe settings.spelling = planKey entry) ∨
    (∀ fp, reseeded settings rt base.plan walk fp = []) ∧ base.stopReason ≠ "completed"
  | _ => True

/-- All workers have left after three faults in a row, and the map has room. -/
def FaultedOut (st : CrawlConfig World Lane Place) : Prop :=
  st.threads ≠ [] ∧ (∀ thread ∈ st.threads, thread.2 = .faulted) ∧
    st.shared.screenMap.nodes.length < settings.maxScreens

variable {settings rt pool boot} {st : CrawlConfig World Lane Place} {returned : ScreenMap}

/-- A crawl that has something to explore starts its workers without a stop reason. -/
theorem coordinator_start (hWhole : boot.Whole)
    (hStart : (bootstrap settings rt boot).2 ≠ none ∨ anyPending (boot.coordinator settings rt) = true) :
    (boot.coordinator settings rt).screenMap.stopReason = "" ∧ (boot.coordinator settings rt).stopped = false := by
  cases boot with
  | fresh start dismissed guided =>
    let c := alertIfAny settings [] dismissed { screenMap := {}, pathTo := [((fingerprint rt start).value, [])] }
    have hFresh : c.screenMap.stopReason = "" ∧ c.stopped = false := by
      change (alertIfAny ..).screenMap.stopReason = "" ∧ (alertIfAny ..).stopped = false
      rw [alertIfAny]
      split
      · exact ⟨rfl, rfl⟩
      · exact ⟨rfl, rfl⟩
    let node := nodeOf start settings.spelling (fingerprint rt start) guided
    have hReason := (@publish_reason settings c node guided).1
    have hStopped : (c.publish settings node guided).2.stopped = c.stopped :=
      congrArg Coordinator.Shape.stopped (Coordinator.shape_publish settings c node guided)
    exact ⟨hReason.trans hFresh.1, hStopped.trans hFresh.2⟩
  | resume => cases hWhole
  | continuing base walk =>
    obtain ⟨-, hStopped, ⟨-, hReason⟩ | ⟨hNothing, -⟩⟩ := reconstructFrontier_spec settings rt walk base.toScreenMap
    · exact ⟨hReason, hStopped⟩
    · obtain hNone | hPending := hStart
      · exact absurd rfl hNone
      · cases hNothing.symm.trans hPending

theorem drained_of_completed (hEnds : Ends settings st.shared (standings (crawlers rt settings.spelling pool startFp) st)
    (notes st.history)) (hFine : st.shared.failure = []) (h : finalReason settings st.shared = "completed") (fp : String) :
    st.shared.untried fp = [] := by
  rw [finalReason] at h
  split at h
  · obtain hFailed | ⟨hDrained, -⟩ := hEnds.completed h
    · exact absurd hFine (hEnds.failure hFailed)
    · exact hDrained fp
  · split at h
    · rename_i hNothing
      exact untried_of_noPending hNothing fp
    · split at h
      · exact absurd h (by decide)
      · exact absurd h (by decide)

/-- A crawl that reports `max_steps` spent its steps, unless its workers have all faulted out. -/
theorem spent_of_steps (hReach : (boot.machine settings rt pool).Reaches (.init (boot.coordinator settings rt)) st)
    (hEnds : Ends settings st.shared (standings (crawlers rt settings.spelling pool startFp) st) (notes st.history))
    (hThreads : st.threads ≠ []) (hDone : ∀ thread ∈ st.threads, nextStatement rt settings.spelling pool thread.2 = none)
    (hLeft : ¬FaultedOut settings st) (h : finalReason settings st.shared = "max_steps") :
    settings.maxSteps ≤ st.shared.steps := by
  rw [finalReason] at h
  split at h
  · exact hEnds.steps h
  rename_i hReason
  split at h
  · exact absurd h (by decide)
  split at h
  · exact absurd h (by decide)
  rename_i hRoom
  refine absurd ⟨hThreads, ?_, by omega⟩ hLeft
  intro thread hMem
  obtain ⟨n, hThread⟩ := List.mem_iff_getElem?.mp hMem
  obtain ⟨lane, p⟩ := thread
  have hEnd : nextStatement rt settings.spelling pool p = none := hDone _ hMem
  have hStopped : p.ended = true → False := by
    intro hEnded
    exact hReason (hEnds.stopped.mpr (ended_reached hReach hThread hEnded))
  cases p with
  | faulted => rfl
  | retired => exact (hStopped rfl).elim
  | failed standing => exact (hStopped rfl).elim
  | _ => cases hEnd

theorem drained (hWhole : boot.Whole) (h : Returns settings rt pool boot st returned)
    (hCompleted : returned.stopReason = "completed") (fp : String) : st.shared.untried fp = [] := by
  cases h with
  | atOnce hStart hNothing => exact untried_of_noPending hNothing fp
  | joined hStart hReach hPrimary hDone hFine =>
    obtain ⟨hReason, hRuns⟩ := coordinator_start hWhole hStart
    exact drained_of_completed (ends_reached (bootstrap_booted settings rt boot) hReason hRuns hReach) hFine hCompleted fp

/-- A crawl that returns at once for `max_steps` returns the map as it was. -/
theorem untouched_of_atOnce (hWhole : boot.Whole) (hStart : (bootstrap settings rt boot).2 = none)
    (hNothing : anyPending (boot.coordinator settings rt) = false)
    (hSteps : (boot.coordinator settings rt).screenMap.stopReason = "max_steps") :
    boot.Untouched settings rt (boot.coordinator settings rt).screenMap := by
  cases boot with
  | fresh => cases hStart
  | resume => cases hWhole
  | continuing base walk =>
    obtain ⟨hQueued, -, ⟨⟨fp, hSome⟩, -⟩ | ⟨-, ⟨alerts, hMap⟩ | ⟨-, hReason⟩⟩⟩ :=
      reconstructFrontier_spec settings rt walk base.toScreenMap
    · exact absurd ((hQueued fp).symm.trans (untried_of_noPending hNothing fp)) hSome
    · refine ⟨fun fp => (hQueued fp).symm.trans (untried_of_noPending hNothing fp), ?_⟩
      have hSame : ∀ (kept : ScreenMap) (reason : String),
          kept = { base.toScreenMap with alerts := alerts, stopReason := reason } →
            kept = { base.toScreenMap with alerts := kept.alerts, stopReason := kept.stopReason } := by
        rintro _ reason rfl
        rfl
      exact hSame _ _ hMap
    · exact absurd (hReason.symm.trans hSteps) (by decide)

/-- A crawl that queues nothing of a plan does not report that it completed, unless the saved map said so. -/
theorem unqueued_completed {base : SavedMap} {walk : String → Walked}
    (h : Returns settings rt pool (.continuing base walk) st returned)
    (hNone : ∀ fp, reseeded settings rt base.plan walk fp = []) (hReason : base.stopReason ≠ "completed")
    (hCompleted : returned.stopReason = "completed") {fp : String} {ops : List String}
    (hOps : get base.plan fp = some ops) : ops = [] := by
  obtain ⟨-, -, ⟨⟨fp', hSome⟩, -⟩ | ⟨hNothing, hMap⟩⟩ := reconstructFrontier_spec settings rt walk base.toScreenMap
  · exact absurd (hNone fp') hSome
  cases h with
  | atOnce hStart _ =>
    obtain ⟨alerts, hMap⟩ | ⟨hDrained, -⟩ := hMap
    · change (reconstructFrontier settings rt walk base.toScreenMap).screenMap.stopReason = "completed" at hCompleted
      rw [hMap] at hCompleted
      change (if base.stopReason ≠ "" then base.stopReason else "max_steps") = "completed" at hCompleted
      split at hCompleted
      · exact absurd hCompleted hReason
      · exact absurd hCompleted (by decide)
    · exact hDrained (fp, ops) (get_mem hOps)
  | joined hStart =>
    obtain hStart | hPending := hStart
    · exact absurd rfl hStart
    · exact nomatch hNothing.symm.trans hPending

/-- A crawl that returns accounts for the work that was recorded. -/
theorem crawl_accounted (settings : Settings) (rt : Runtime) (pool : Pool) (boot : Boot) (hWhole : boot.Whole)
    (h : Returns settings rt pool boot st returned) (hPlan : boot.Rederivable settings rt)
    (hLeft : ¬FaultedOut settings st) : Accounted settings rt pool boot st returned := by
  have hBooted : Booted (boot.coordinator settings rt).shape := bootstrap_booted settings rt boot
  have hReach : (boot.machine settings rt pool).Reaches (.init (boot.coordinator settings rt)) st := by
    cases h with
    | atOnce => exact .refl _
    | joined hStart hReach => exact hReach
  have hUntried : returned.stopReason = "completed" → ∀ mid fp a,
      (boot.machine settings rt pool).Reaches (.init (boot.coordinator settings rt)) mid →
      (boot.machine settings rt pool).Reaches mid st → a ∈ mid.shared.untried fp → Handed st fp a ∨ Dropped st fp := by
    intro hCompleted mid fp a hMid hLater hMem
    obtain hStill | hHanded | ⟨n, hDropped⟩ := untried_later hBooted hMid hLater hMem
    · rw [drained hWhole h hCompleted fp] at hStill
      cases hStill
    · exact .inl hHanded
    · exact .inr ⟨n, droppedStale_of_note hReach hDropped⟩
  constructor
  · exact hUntried
  · intro hCompleted fp ops entry hOps hEntry
    cases boot with
    | fresh => cases hOps
    | resume => cases hWhole
    | continuing base walk =>
      obtain hAll | ⟨hNone, hReason⟩ := hPlan
      · obtain hStale | ⟨a, hQueued, hDescribe⟩ := hAll fp ops entry hOps hEntry
        · exact .inr (.inr hStale)
        · -- An entry with a candidate is among the actions that are untried at the start.
          have hQueue := (reconstructFrontier_spec settings rt walk base.toScreenMap).1 fp
          obtain hHanded | hDropped := hUntried hCompleted _ fp a (.refl _) hReach (hQueue ▸ hQueued)
          · exact .inl ⟨a, hDescribe, hHanded⟩
          · exact .inr (.inl hDropped)
      · exact absurd hEntry (unqueued_completed h hNone hReason hCompleted hOps ▸ List.not_mem_nil)
  · intro hSteps
    cases h with
    | atOnce hStart hNothing => exact .inr ⟨rfl, untouched_of_atOnce hWhole hStart hNothing hSteps⟩
    | joined hStart _ hPrimary hDone hFine =>
      obtain ⟨hReason, hRuns⟩ := coordinator_start hWhole hStart
      obtain ⟨p, hMem⟩ := hPrimary
      obtain ⟨hCount, hLimit⟩ := (kept_reached hBooted hReach).budget
      have hSpent := spent_of_steps hReach (ends_reached hBooted hReason hRuns hReach) (List.ne_nil_of_mem hMem) hDone
        hLeft hSteps
      have hEqual : st.shared.steps = settings.maxSteps := le_antisymm hLimit hSpent
      exact .inl (hCount.symm.trans hEqual)

/-! ## Two saved maps -/

/-- The SHA-1 digests of the two screens. -/
def digests : Runtime where
  sha1 text :=
    if text = "home\nnext" then "8d194f10def53249bc17fd34471599da7052e6fb"
    else if text = "note=\nsave" then "4ffa658b0a0464ed1535214068bb7d0a87a8fe1e"
    else text
  lower := id

def homeFp : String := "8d194f10def53249bc17fd34471599da7052e6fb"

def noteFp : String := "4ffa658b0a0464ed1535214068bb7d0a87a8fe1e"

def noteScreen : List Element :=
  [{ control "note" with traits := ["textField"], value := some "hi" }, control "save"]

/-- A saved map with a control to tap on one of its screens. -/
def onePlanned : SavedMap where
  nodes := [(homeFp, nodeOf [control "home", control "next"] twoScreens.spelling ⟨homeFp, "id"⟩ []),
    (noteFp, nodeOf noteScreen twoScreens.spelling ⟨noteFp, "id"⟩ [])]
  plan := [(homeFp, ["tap next"])]
  stopReason := "max_steps"
  planned fp ops hOps _ := by
    have hKey : (get [(homeFp, ["tap next"])] fp).isSome = true := Option.isSome_iff_exists.mpr ⟨ops, hOps⟩
    obtain rfl := List.mem_singleton.mp (get_isSome_iff.mp hKey)
    decide

/-- A saved map with a control to tap on one screen and a text that only a guide proposes on the other. -/
def twoPlanned : SavedMap where
  nodes := [(homeFp, nodeOf [control "home", control "next"] twoScreens.spelling ⟨homeFp, "id"⟩ []),
    (noteFp, nodeOf noteScreen twoScreens.spelling ⟨noteFp, "id"⟩ [])]
  plan := [(homeFp, ["tap next"]), (noteFp, ["type note"])]
  stopReason := "max_steps"
  planned fp ops hOps _ := by
    have hKey : (get [(homeFp, ["tap next"]), (noteFp, ["type note"])] fp).isSome = true :=
      Option.isSome_iff_exists.mpr ⟨ops, hOps⟩
    have hMem : fp ∈ [homeFp, noteFp] := get_isSome_iff.mp hKey
    exact get_isSome_iff.mpr hMem

def twoWalks (fp : String) : Walked :=
  if fp = homeFp then .landed [control "home", control "next"] [] else .landed noteScreen []

def resumed (base : SavedMap) : Boot := .continuing base twoWalks

/-- The tap leads to the screen that is known. -/
def seesNote : World where
  factory := none
  replay := .ok true
  act := .ok (noteScreen, [])
  alive := .ok true
  guide := .ok []
  heal := none

def tapOnly : List (Label World Lane) := .call .primary :: List.replicate 4 (.run 0 seesNote)

theorem returns_after {labels : List (Label World Lane)}
    (hStart : anyPending (boot.coordinator settings rt) = true)
    (hRun : ((boot.machine settings rt pool).run (.init (boot.coordinator settings rt)) labels).isSome = true)
    (hThreads : ((boot.machine settings rt pool).after (.init (boot.coordinator settings rt)) labels).threads =
      [(.primary, .retired)])
    (hFine : ((boot.machine settings rt pool).after (.init (boot.coordinator settings rt)) labels).shared.failure = [])
    (hReturned : (Coordinator.emit settings
      { ((boot.machine settings rt pool).after (.init (boot.coordinator settings rt)) labels).shared with
        screenMap.stopReason := finalReason settings
          ((boot.machine settings rt pool).after (.init (boot.coordinator settings rt)) labels).shared }).screenMap =
        returned) :
    Returns settings rt pool boot
      ((boot.machine settings rt pool).after (.init (boot.coordinator settings rt)) labels) returned := by
  subst hReturned
  refine .joined (.inr hStart) (.after hRun) ⟨.retired, hThreads ▸ List.mem_cons_self⟩ ?_ hFine
  intro thread hMem
  rw [hThreads] at hMem
  obtain rfl := List.mem_singleton.mp hMem
  rfl

theorem crawl_accounted_tap :
    Accounted twoScreens digests ⟨false, false⟩ (resumed onePlanned)
      (((resumed onePlanned).machine twoScreens digests ⟨false, false⟩).after
        (.init ((resumed onePlanned).coordinator twoScreens digests)) tapOnly)
      (Coordinator.emit twoScreens
        { (((resumed onePlanned).machine twoScreens digests ⟨false, false⟩).after
            (.init ((resumed onePlanned).coordinator twoScreens digests)) tapOnly).shared with
          screenMap.stopReason := "completed" }).screenMap := by
  refine crawl_accounted twoScreens digests ⟨false, false⟩ (resumed onePlanned) trivial
    (returns_after (by decide) (by decide) rfl (by decide) rfl) ?_ ?_
  · left
    intro fp ops entry hOps hEntry
    have hKey : (get [(homeFp, ["tap next"])] fp).isSome = true := Option.isSome_iff_exists.mpr ⟨ops, hOps⟩
    obtain rfl := List.mem_singleton.mp (get_isSome_iff.mp hKey)
    cases hOps
    obtain rfl := List.mem_singleton.mp hEntry
    exact .inr ⟨{ kind := .tap, target := "next" }, by decide, by decide⟩
  · rintro ⟨-, hFaulted, -⟩
    exact nomatch hFaulted (.primary, .retired) List.mem_cons_self

/-- The map is returned as completed, though nothing was typed into the note. -/
theorem crawl_overwrites : ¬∀ (settings : Settings) (rt : Runtime) (pool : Pool) (boot : Boot)
    (st : CrawlConfig World Lane Place) (returned : ScreenMap), boot.Whole → Returns settings rt pool boot st returned →
      Accounted settings rt pool boot st returned := by
  intro hAll
  let st := ((resumed twoPlanned).machine twoScreens digests ⟨false, false⟩).after
    (.init ((resumed twoPlanned).coordinator twoScreens digests)) tapOnly
  have hReturns := @returns_after twoScreens digests ⟨false, false⟩ (resumed twoPlanned) _ tapOnly (by decide) (by decide) rfl
    (by decide) rfl
  have hHanded : (notes st.history).all (handsOther noteFp) = true := by decide
  have hKept : st.history.all (fun event => !dropsScreen noteFp event) = true := by decide
  have hAccounted := hAll twoScreens digests ⟨false, false⟩ (resumed twoPlanned) st _ trivial hReturns
  obtain ⟨a, -, n, hMem⟩ | ⟨n, hDropped⟩ | hStale :=
    hAccounted.plan (by decide) noteFp ["type note"] "type note" (by decide) List.mem_cons_self
  · have hOther : decide (noteFp ≠ noteFp) = true := List.all_eq_true.mp hHanded _ hMem
    exact absurd rfl (of_decide_eq_true hOther)
  · obtain ⟨before, stale, drop, later, hEvents, -, hDrop⟩ := hDropped
    have hMem : drop ∈ Machine.eventsOf n st.history := by
      rw [hEvents]
      simp
    have hOther := List.all_eq_true.mp hKept drop (List.mem_filter.mp hMem).1
    rw [hDrop] at hOther
    cases hOther
  · change (if noteFp = homeFp then Walked.landed [control "home", control "next"] [] else .landed noteScreen []) =
      .stale at hStale
    rw [if_neg (by decide)] at hStale
    cases hStale

end Returns

end Bajutsu.Crawl
