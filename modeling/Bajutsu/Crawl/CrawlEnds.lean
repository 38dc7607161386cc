import Bajutsu.Crawl.CrawlSafe

/-!
# How a crawl ends

What becomes of the actions that were untried at some time, and what the stop reason says of the frontier.
-/

namespace Bajutsu.Crawl

open PyValue Interleaving
open Transition (countP_set)

/-! ## Screens that are being discovered -/

/-- The screens of the map are those of the start and those that were published; what is found is new. -/
structure Grown (boot sh : Shape) (past : List (Nat × Note)) : Prop where
  published : ∀ fp, sh.known fp = true → boot.known fp = true ∨ 0 < publishedCount fp past
  new : ∀ fp, 0 < foundCount fp past → boot.known fp = false
  kept : ∀ fp, boot.known fp = true → sh.known fp = true

section Moves

variable {settings : Settings} {boot sh sh' : Shape} {s s' : Standing} {note : Note} {standings : List Standing}
  {n : Nat} {past : List (Nat × Note)}

theorem Grown.start (boot : Shape) : Grown boot boot [] where
  published _ hKnown := .inl hKnown
  new _ hFound := absurd hFound (lt_irrefl 0)
  kept _ := id

theorem publishedCount_append (fp : String) (past : List (Nat × Note)) (n : Nat) (note : Note) :
    publishedCount fp (past ++ [(n, note)]) = publishedCount fp past + if note.publishes fp then 1 else 0 := by
  rw [publishedCount, List.countP_append, List.countP_singleton]
  rfl

theorem foundCount_append (fp : String) (past : List (Nat × Note)) (n : Nat) (note : Note) :
    foundCount fp (past ++ [(n, note)]) = foundCount fp past + if note = .found fp then 1 else 0 := by
  rw [foundCount, List.countP_append, List.countP_singleton]
  simp only [decide_eq_true_eq]
  rfl

theorem Grown.skip (h : Grown boot sh past) (hKnown : sh'.known = sh.known) (hFound : ∀ fp, note ≠ .found fp) :
    Grown boot sh' (past ++ [(n, note)]) where
  published fp hNow := by
    rw [publishedCount_append]
    obtain hBoot | hPublished := h.published fp (hKnown ▸ hNow)
    · exact .inl hBoot
    · exact .inr (Nat.lt_of_lt_of_le hPublished (Nat.le_add_right _ _))
  new fp hNow := by
    rw [foundCount_append, if_neg (hFound fp)] at hNow
    exact h.new fp hNow
  kept fp hBoot := by
    rw [hKnown]
    exact h.kept fp hBoot

theorem Grown.move (h : Grown boot sh past) (hMove : Moves settings sh s note s' sh') :
    Grown boot sh' (past ++ [(n, note)]) := by
  cases hMove with
  | find w fp path hNew hFree =>
    constructor
    · intro fp' hNow
      rw [publishedCount_append]
      exact (h.published fp' hNow).imp_right fun hOld => Nat.lt_of_lt_of_le hOld (Nat.le_add_right _ _)
    · intro fp' hNow
      rw [foundCount_append] at hNow
      by_cases hSame : fp = fp'
      · subst hSame
        by_contra hBoot
        exact nomatch hNew.symm.trans (h.kept fp (Bool.not_eq_false _ ▸ hBoot))
      · rw [if_neg (fun hNote => hSame (Note.found.inj hNote))] at hNow
        exact h.new fp' hNow
    · exact h.kept
  | publish w node frontier =>
    constructor
    · intro fp hNow
      rw [publishedCount_append]
      by_cases hSame : node.fingerprint = fp
      · have hPublishes : (Note.published node.fingerprint frontier).publishes fp = true := decide_eq_true hSame
        rw [if_pos hPublishes]
        exact .inr (Nat.succ_pos _)
      · change (get (set sh.nodes node.fingerprint node) fp).isSome = true at hNow
        rw [get_set_ne _ _ (Ne.symm hSame)] at hNow
        exact (h.published fp hNow).imp_right fun hOld => Nat.lt_of_lt_of_le hOld (Nat.le_add_right _ _)
    · intro fp hNow
      rw [foundCount_append, if_neg (nofun)] at hNow
      exact h.new fp hNow
    · intro fp hBoot
      exact known_set node node.fingerprint fp (h.kept fp hBoot)
  | _ => exact h.skip rfl (fun _ => nofun)

theorem untried_of_discovering (hKept : Kept settings boot sh standings past) (hGrown : Grown boot sh past) {fp : String}
    (hStands : standings[n]? = some s) (hDiscovers : s.discovers fp = true) : sh.untried fp = [] := by
  have hOnce := (hKept.discovered fp).once
  have hBalance := (hKept.discovered fp).balance
  have hOne : 0 < standings.countP (Standing.discovers fp) :=
    List.countP_pos_iff.mpr ⟨s, List.mem_of_getElem? hStands, hDiscovers⟩
  by_contra hOpen
  obtain hBoot | hPublished := hGrown.published fp (hKept.known.untried fp hOpen).2
  · have hNew := hGrown.new fp (by omega)
    exact nomatch hNew.symm.trans hBoot
  · omega

/-! ## Actions -/

/-- An untried action stays untried, or it is handed out, or its screen is dropped. -/
theorem Moves.untried (h : Moves settings sh s note s' sh')
    (hDiscovering : ∀ fp, s.discovers fp = true → sh.untried fp = []) {fp : String} {a : Action}
    (hMem : a ∈ sh.untried fp) : a ∈ sh'.untried fp ∨ note = .handed fp a ∨ note = .dropped fp := by
  have hSet : ∀ (src : String) (actions : List Action), src ≠ fp →
      (get (set sh.pending src actions) fp).getD [] = sh.untried fp := by
    intro src actions hOther
    rw [untried_set, if_neg (Ne.symm hOther)]
  cases h with
  | take w rest hRuns hScreens hSteps hUntried =>
    rcases eq_or_ne w.srcFp fp with rfl | hOther
    · rw [hUntried] at hMem
      obtain rfl | hRest := List.mem_cons.mp hMem
      · exact .inr (.inl rfl)
      · left
        change a ∈ (get (set sh.pending w.srcFp rest) w.srcFp).getD []
        rw [get_set_self]
        exact hRest
    · left
      change a ∈ (get (set sh.pending w.srcFp rest) fp).getD []
      rw [hSet _ _ hOther]
      exact hMem
  | publish w node frontier =>
    rcases eq_or_ne node.fingerprint fp with rfl | hOther
    · rw [hDiscovering node.fingerprint (decide_eq_true rfl)] at hMem
      cases hMem
    · left
      change a ∈ (get (set sh.pending node.fingerprint frontier) fp).getD []
      rw [hSet _ _ hOther]
      exact hMem
  | giveBack w =>
    left
    change a ∈ (get (set sh.pending w.srcFp (w.action :: sh.untried w.srcFp)) fp).getD []
    rcases eq_or_ne w.srcFp fp with rfl | hOther
    · rw [get_set_self]
      exact List.mem_cons_of_mem _ hMem
    · rw [hSet _ _ hOther]
      exact hMem
  | drop w =>
    rcases eq_or_ne w.srcFp fp with rfl | hOther
    · exact .inr (.inr rfl)
    · left
      change a ∈ (get (set sh.pending w.srcFp []) fp).getD []
      rw [hSet _ _ hOther]
      exact hMem
  | _ => exact .inl hMem

end Moves

section Runs

variable {ε κ τ : Type} {settings : Settings} {crew : Crew ε κ τ} {boot : Coordinator}

theorem grown_reached {st : CrawlConfig ε κ τ}
    (h : (crew.machine settings).Reaches (.init boot) st) : Grown boot.shape st.shared.shape (notes st.history) := by
  refine h.keeps (P := fun st => Grown boot.shape st.shared.shape (notes st.history)) ?_ (Grown.start _)
  intro st fin label _ hGrown hStep
  obtain ⟨c, -, rfl⟩ | ⟨n, e, c, p, i, rest, -, hThread, hNext, rfl⟩ := Machine.step_event hStep
  · exact hGrown
  · rw [notes, List.map_append]
    exact hGrown.move (moves_of_protocol (crew.follows p i rest _ hNext))

theorem untried_later (hBoot : Booted boot.shape) {mid st : CrawlConfig ε κ τ}
    (hMid : (crew.machine settings).Reaches (.init boot) mid) (h : (crew.machine settings).Reaches mid st)
    {fp : String} {a : Action} (hMem : a ∈ mid.shared.untried fp) :
    a ∈ st.shared.untried fp ∨ (∃ n, (n, .handed fp a) ∈ notes st.history) ∨
      ∃ n, (n, .dropped fp) ∈ notes st.history := by
  induction h with
  | refl => exact .inl hMem
  | tail h hStep ih =>
    have hReach := hMid.trans h
    obtain ⟨c, -, rfl⟩ | ⟨n, e, c, p, i, rest, -, hThread, hNext, rfl⟩ := Machine.step_event hStep
    · exact ih
    · rename_i mid' _
      have hKept := kept_reached hBoot hReach
      have hStands : (standings crew mid')[n]? = some (crew.standing p) := by
        rw [standings, List.getElem?_map, hThread]
        rfl
      have hMove := moves_of_protocol (crew.follows p i rest (exec settings i e mid'.shared).2 hNext)
      rw [notes, List.map_append]
      obtain hUntried | ⟨m, hHanded⟩ | ⟨m, hDropped⟩ := ih
      · obtain hStill | hNote | hNote := hMove.untried
          (fun fp' => untried_of_discovering hKept (grown_reached hReach) hStands) hUntried
        · exact .inl hStill
        · refine .inr (.inl ⟨n, List.mem_append_right _ ?_⟩)
          rw [← hNote]
          exact List.mem_cons_self
        · refine .inr (.inr ⟨n, List.mem_append_right _ ?_⟩)
          rw [← hNote]
          exact List.mem_cons_self
      · exact .inr (.inl ⟨m, List.mem_append_left _ hHanded⟩)
      · exact .inr (.inr ⟨m, List.mem_append_left _ hDropped⟩)

end Runs

/-! ## Stop reasons -/

/-- What a stop reason that was set during the crawl says of where it stands. -/
structure Ends (settings : Settings) (c : Coordinator) (standings : List Standing) (past : List (Nat × Note)) :
    Prop where
  stopped : c.screenMap.stopReason ≠ "" ↔ c.stopped = true
  completed : c.screenMap.stopReason = "completed" → (∃ n, (n, Note.failed) ∈ past) ∨
    (∀ fp, c.untried fp = []) ∧ standings.countP Standing.reserved = 0
  steps : c.screenMap.stopReason = "max_steps" → settings.maxSteps ≤ c.steps
  failure : (∃ n, (n, Note.failed) ∈ past) → c.failure ≠ []

section Reasons

variable {ε : Type} {settings : Settings} {c c' : Coordinator} {standings : List Standing} {past : List (Nat × Note)}
  {n : Nat} {s s' : Standing}

theorem publish_reason (node : Node) (actions : List Action) :
    (c.publish settings node actions).2.screenMap.stopReason = c.screenMap.stopReason ∧
      (c.publish settings node actions).2.failure = c.failure := by
  obtain ⟨-, claimed, pruned, hClaim⟩ := Coordinator.claim_cases settings { c with
    screenMap.nodes := set c.screenMap.nodes node.fingerprint node
    screenMap.paths := set c.screenMap.paths node.fingerprint (c.path node.fingerprint) } node.fingerprint actions
  rw [Coordinator.publish, hClaim]
  exact ⟨rfl, rfl⟩

theorem exec_reason (settings : Settings) (i : Statement) (e : ε) (c : Coordinator) :
    (∃ current, i = .selectNextWork current) ∨ (∃ exc, i = .noteFailure exc) ∨
      (∀ current, i ≠ .selectNextWork current) ∧
        (exec settings i e c).1.screenMap.stopReason = c.screenMap.stopReason ∧
        (exec settings i e c).1.stopped = c.stopped ∧ (exec settings i e c).1.failure = c.failure := by
  cases i with
  | selectNextWork current => exact .inl ⟨current, rfl⟩
  | noteFailure exc => exact .inr (.inl ⟨exc, rfl⟩)
  | recordEdge src action dst dismissed path =>
    refine .inr (.inr ⟨(fun _ => by rintro ⟨⟩), ?_⟩)
    change (c.recordEdge settings src action dst dismissed path).1.screenMap.stopReason = _ ∧
      (c.recordEdge settings src action dst dismissed path).1.stopped = _ ∧
        (c.recordEdge settings src action dst dismissed path).1.failure = _
    rw [Coordinator.recordEdge]
    split
    · exact ⟨rfl, rfl, rfl⟩
    · exact ⟨rfl, rfl, rfl⟩
  | finishDiscovery node actions =>
    obtain ⟨hReason, hFailure⟩ := @publish_reason settings c node actions
    have hShape := Coordinator.shape_publish settings c node actions
    have hStopped : (c.publish settings node actions).2.stopped = c.stopped :=
      congrArg Coordinator.Shape.stopped hShape
    exact .inr (.inr ⟨(fun _ => by rintro ⟨⟩), hReason, hStopped, hFailure⟩)
  | _ => exact .inr (.inr ⟨(fun _ => by rintro ⟨⟩), rfl, rfl, rfl⟩)

theorem noteOf_failed {i : Statement} {reply : Reply ε i} (h : noteOf i reply = .failed) :
    ∃ exc, i = .noteFailure exc := by
  cases i with
  | noteFailure exc => exact ⟨exc, rfl⟩
  | selectNextWork current =>
    change Coordinator.Selected at reply
    cases reply with
    | _ => cases h
  | recordEdge src action dst dismissed path =>
    change Bool at reply
    cases reply with
    | _ => cases h
  | _ => cases h

theorem Moves.steps_le {sh sh' : Shape} {note : Note} (h : Moves settings sh s note s' sh') : sh.steps ≤ sh'.steps := by
  cases h with
  | take => exact Nat.le_succ _
  | _ => exact le_rfl

theorem Moves.stopped {sh sh' : Shape} {note : Note} (h : Moves settings sh s note s' sh') (hStopped : sh.stopped = true) :
    sh'.stopped = true := by
  cases h with
  | stop => rfl
  | fail => rfl
  | _ => exact hStopped

theorem finish_reason (c : Coordinator) {reason : String} (hReason : reason ≠ "") :
    (c.finish reason).screenMap.stopReason ≠ "" := by
  change (if c.screenMap.stopReason = "" then reason else c.screenMap.stopReason) ≠ ""
  split
  · exact hReason
  · assumption

theorem finish_cases {reason other : String} (h : (c.finish reason).screenMap.stopReason = other) :
    c.screenMap.stopReason = other ∨ reason = other := by
  change (if c.screenMap.stopReason = "" then reason else c.screenMap.stopReason) = other at h
  split at h
  · exact .inr h
  · exact .inl h

theorem Ends.finish (h : Ends settings c standings past) (hStands : standings[n]? = some .idle) {reason : String}
    (hReason : reason ≠ "")
    (hCompleted : reason = "completed" → (∀ fp, c.untried fp = []) ∧ standings.countP Standing.reserved = 0)
    (hSteps : reason = "max_steps" → settings.maxSteps ≤ c.steps) :
    Ends settings (c.finish reason) (standings.set n .idle) (past ++ [(n, .quiet)]) where
  stopped := ⟨fun _ => rfl, fun _ => finish_reason c hReason⟩
  completed hNow := by
    have hCount := @countP_set _ Standing.reserved _ _ _ .idle hStands
    obtain ⟨m, hFailed⟩ | ⟨hDrained, hNone⟩ := (finish_cases hNow).elim h.completed fun hSame => .inr (hCompleted hSame)
    · exact .inl ⟨m, List.mem_append_left _ hFailed⟩
    · refine .inr ⟨hDrained, ?_⟩
      omega
  steps hNow := (finish_cases hNow).elim h.steps hSteps
  failure := by
    rintro ⟨m, hFailed⟩
    obtain hOld | hNew := List.mem_append.mp hFailed
    · exact h.failure ⟨m, hOld⟩
    · cases List.mem_singleton.mp hNew

/-- A statement that leaves the stop reason, of a worker whose reservation does not change if it has none. -/
theorem Ends.skip (h : Ends settings c standings past) (hStands : standings[n]? = some s) {note : Note}
    (hNote : note ≠ .failed) (hReason : c'.screenMap.stopReason = c.screenMap.stopReason)
    (hStopped : c'.stopped = c.stopped) (hFailure : c'.failure = c.failure) (hSteps : c.steps ≤ c'.steps)
    (hIdle : s.reserved = false → c.stopped = true → s'.reserved = false ∧ ∀ fp, c'.untried fp = c.untried fp) :
    Ends settings c' (standings.set n s') (past ++ [(n, note)]) where
  stopped := by
    rw [hReason, hStopped]
    exact h.stopped
  completed hNow := by
    rw [hReason] at hNow
    have hHalted : c.stopped = true := h.stopped.mp (by rw [hNow]; decide)
    have hCount := @countP_set _ Standing.reserved _ _ _ s' hStands
    obtain ⟨m, hFailed⟩ | ⟨hDrained, hNone⟩ := h.completed hNow
    · exact .inl ⟨m, List.mem_append_left _ hFailed⟩
    · have hFree : s.reserved = false := by
        have hAll := List.countP_eq_zero.mp hNone s (List.mem_of_getElem? hStands)
        simpa using hAll
      obtain ⟨hStill, hSame⟩ := hIdle hFree hHalted
      refine .inr ⟨fun fp => (hSame fp).trans (hDrained fp), ?_⟩
      rw [hFree, hStill] at hCount
      omega
  steps hNow := (h.steps (hReason ▸ hNow)).trans hSteps
  failure := by
    rintro ⟨m, hFailed⟩
    rw [hFailure]
    obtain hOld | hNew := List.mem_append.mp hFailed
    · exact h.failure ⟨m, hOld⟩
    · exact absurd (Prod.mk.inj (List.mem_singleton.mp hNew)).2.symm hNote

theorem Ends.fail (h : Ends settings c standings past) (exc : String) :
    Ends settings (c.noteFailure exc) (standings.set n s') (past ++ [(n, .failed)]) where
  stopped := by
    refine ⟨fun _ => rfl, fun _ => finish_reason _ ?_⟩
    split
    · decide
    · assumption
  completed _ := .inl ⟨n, List.mem_append_right _ List.mem_cons_self⟩
  steps hNow := by
    apply h.steps
    obtain hOld | hNew := finish_cases hNow
    · exact hOld
    · split at hNew
      · exact absurd hNew (by decide)
      · exact hNew
  failure _ := by
    change c.failure ++ [exc] ≠ []
    simp

theorem Ends.selects {current : Option String} {reply : Coordinator.Selected} (h : Ends settings c standings past)
    (hActive : Active c.shape standings) (hStands : standings[n]? = some .idle)
    (hSelects : Coordinator.Selects settings c current c' reply) :
    Ends settings c' (standings.set n reply.standing) (past ++ [(n, noteOfSelected reply)]) := by
  have hNone : c.active = 0 → standings.countP Standing.reserved = 0 := by
    intro hZero
    have hCount : c.active = standings.countP Standing.reserved := hActive
    omega
  cases hSelects with
  | stopped hStopped => exact h.skip hStands (nofun) rfl rfl rfl le_rfl fun _ _ => ⟨rfl, fun _ => rfl⟩
  | screens hScreens =>
    refine h.finish hStands (by decide) (fun hReason => ?_) (fun hReason => ?_)
    · exact absurd hReason (by decide)
    · exact absurd hReason (by decide)
  | steps hSteps => exact h.finish hStands (by decide) (fun hReason => absurd hReason (by decide)) fun _ => hSteps
  | completed hRuns hZero hDrained =>
    exact h.finish hStands (by decide) (fun _ => ⟨hDrained, hNone hZero⟩) fun hReason => absurd hReason (by decide)
  | wait hRuns hSome hDrained => exact h.skip hStands (nofun) rfl rfl rfl le_rfl fun _ _ => ⟨rfl, fun _ => rfl⟩
  | work o hRuns hScreens hSteps hUntried =>
    refine h.skip hStands (nofun) rfl rfl rfl (Nat.le_succ _) fun _ hStopped => ?_
    exact nomatch hRuns.symm.trans hStopped

theorem Ends.move {i : Statement} {e : ε} (h : Ends settings c standings past) (hActive : Active c.shape standings)
    (hStands : standings[n]? = some s) (hProtocol : Protocol s i (exec settings i e c).2 s') :
    Ends settings (exec settings i e c).1 (standings.set n s') (past ++ [(n, noteOf i (exec settings i e c).2)]) := by
  have hSteps : c.steps ≤ (exec settings i e c).1.steps := (moves_of_protocol hProtocol).steps_le
  obtain ⟨current, rfl⟩ | ⟨exc, rfl⟩ | ⟨hOther, hReason, hStopped, hFailure⟩ :=
    exec_reason settings i e c
  · generalize hReply : (exec settings (.selectNextWork current) e c).2 = reply at hProtocol
    cases hProtocol with
    | select _ selected =>
      subst hReply
      exact h.selects hActive hStands (Coordinator.selects settings c current)
  · exact h.fail exc
  · by_cases hQuiet : noteOf i (exec settings i e c).2 = .failed
    · obtain ⟨exc, rfl⟩ := noteOf_failed hQuiet
      exact h.fail exc
    · refine h.skip hStands hQuiet hReason hStopped hFailure hSteps fun hFree hHalted => ?_
      generalize hReply : (exec settings i e c).2 = reply at hProtocol
      cases hProtocol with
      | device => exact ⟨hFree, fun _ => rfl⟩
      | alert => exact ⟨hFree, fun _ => rfl⟩
      | select current => exact absurd rfl (hOther current)
      | fail => exact absurd rfl hQuiet
      | _ => cases hFree

theorem Ends.join (h : Ends settings c standings past) : Ends settings c (standings ++ [.idle]) past where
  stopped := h.stopped
  completed hNow := by
    obtain hFailed | ⟨hDrained, hNone⟩ := h.completed hNow
    · exact .inl hFailed
    · refine .inr ⟨hDrained, ?_⟩
      rw [List.countP_append, hNone]
      rfl
  steps := h.steps
  failure := h.failure

theorem Ends.start (hReason : c.screenMap.stopReason = "") (hRuns : c.stopped = false) : Ends settings c [] [] where
  stopped := by
    rw [hReason, hRuns]
    decide
  completed hNow := by
    rw [hReason] at hNow
    exact absurd hNow (by decide)
  steps hNow := by
    rw [hReason] at hNow
    exact absurd hNow (by decide)
  failure := by
    rintro ⟨n, hMem⟩
    cases hMem

theorem ends_reached {κ τ : Type} {crew : Crew ε κ τ} {boot : Coordinator} (hBoot : Booted boot.shape)
    (hReason : boot.screenMap.stopReason = "") (hRuns : boot.stopped = false) {st : CrawlConfig ε κ τ}
    (h : (crew.machine settings).Reaches (.init boot) st) :
    Ends settings st.shared (Crawl.standings crew st) (notes st.history) := by
  refine h.keeps (P := fun st => Ends settings st.shared (Crawl.standings crew st) (notes st.history)) ?_
    (.start hReason hRuns)
  intro st fin label hReach hEnds hStep
  have hActive := (kept_reached hBoot hReach).active
  obtain ⟨lane, -, rfl⟩ | ⟨n, e, lane, p, i, rest, -, hThread, hNext, rfl⟩ := Machine.step_event hStep
  · rw [Crawl.standings, List.map_append, List.map_singleton]
    change Ends settings st.shared (_ ++ [crew.standing (crew.start lane)]) _
    rw [crew.starts]
    exact hEnds.join
  · have hStands : (Crawl.standings crew st)[n]? = some (crew.standing p) := by
      rw [Crawl.standings, List.getElem?_map, hThread]
      rfl
    have hMoved := hEnds.move hActive hStands (crew.follows p i rest (exec settings i e st.shared).2 hNext)
    rw [Crawl.standings, notes, List.map_set, List.map_append]
    exact hMoved

end Reasons

end Bajutsu.Crawl
