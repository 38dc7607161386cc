import Bajutsu.Crawl.CoordinatorSteps
import Bajutsu.Lib.Transition

/-!
# The coordinator under any interleaving

What holds of the frontier, the reservations and the budgets however the workers of a crew interleave.
-/

namespace Bajutsu.Crawl

open PyValue Interleaving
open Transition (countP_set)

variable {ε κ τ : Type}

namespace Standing

/-- Whether the worker's reservation counts as active. -/
def reserved : Standing → Bool
  | idle => false
  | _ => true

/-- Whether the worker has a reservation that it will still release. -/
def outstanding : Standing → Bool
  | holding _ => true
  | discovering _ _ => true
  | _ => false

def work : Standing → Option Work
  | holding w => some w
  | discovering w _ => some w
  | _ => none

def discovers (fp : String) : Standing → Bool
  | discovering _ dst => dst = fp
  | _ => false

end Standing

/-! ## What a statement does -/

/-- What the history tells of a statement. -/
inductive Note where
  | quiet
  | handed (fp : String) (action : Action)
  | found (fp : String)
  | published (fp : String) (frontier : List Action)
  | gaveBack (fp : String) (action : Action)
  | dropped (fp : String)
  | failed
  deriving DecidableEq

abbrev Ran (ε : Type) := Event Statement (Reply ε) ε

def noteOfSelected : Coordinator.Selected → Note
  | .work w => .handed w.srcFp w.action
  | _ => .quiet

def noteOfEdge (fp : String) : Bool → Note
  | true => .found fp
  | false => .quiet

def noteOf : (i : Statement) → Reply ε i → Note
  | .selectNextWork _, reply => noteOfSelected reply
  | .recordEdge _ _ dst _ _, reply => noteOfEdge dst.value reply
  | .finishDiscovery node _, reply => .published node.fingerprint reply
  | .giveBack src action, _ => .gaveBack src action
  | .dropScreen src, _ => .dropped src
  | .noteFailure _, _ => .failed
  | _, _ => .quiet

def notes (history : List (Ran ε)) : List (Nat × Note) :=
  history.map fun event => (event.thread, noteOf event.stmt event.reply)

abbrev Shape := Coordinator.Shape

namespace Coordinator.Shape

def untried (sh : Shape) (fp : String) : List Action := (get sh.pending fp).getD []

def known (sh : Shape) (fp : String) : Bool := (get sh.nodes fp).isSome

def reached (sh : Shape) (fp : String) : Bool := (get sh.pathTo fp).isSome

end Coordinator.Shape

/-- How a worker's standing and the coordinator change in one statement. -/
inductive Moves (settings : Settings) (sh : Shape) : Standing → Note → Standing → Shape → Prop where
  | rest (s : Standing) : Moves settings sh s .quiet s sh
  | stop : Moves settings sh .idle .quiet .idle { sh with stopped := true }
  | take (w : Work) (rest : List Action) (hRuns : sh.stopped = false) (hScreens : sh.nodes.length < settings.maxScreens)
      (hSteps : sh.steps < settings.maxSteps) (hUntried : sh.untried w.srcFp = w.action :: rest) :
      Moves settings sh .idle (.handed w.srcFp w.action) (.holding w)
        { sh with pending := set sh.pending w.srcFp rest, steps := sh.steps + 1, active := sh.active + 1 }
  | release (w : Work) : Moves settings sh (.holding w) .quiet .idle { sh with active := sh.active - 1 }
  | find (w : Work) (fp : String) (path : List Action) (hNew : sh.known fp = false) (hFree : fp ∉ sh.discovering) :
      Moves settings sh (.holding w) (.found fp) (.discovering w fp)
        { sh with discovering := fp :: sh.discovering, pathTo := set sh.pathTo fp path }
  | publish (w : Work) (node : Node) (frontier : List Action) :
      Moves settings sh (.discovering w node.fingerprint) (.published node.fingerprint frontier) .idle
        { sh with
          nodes := set sh.nodes node.fingerprint node
          pending := set sh.pending node.fingerprint frontier
          discovering := sh.discovering.erase node.fingerprint
          active := sh.active - 1 }
  | giveBack (w : Work) :
      Moves settings sh (.holding w) (.gaveBack w.srcFp w.action) .idle
        { sh with pending := set sh.pending w.srcFp (w.action :: sh.untried w.srcFp), active := sh.active - 1 }
  | drop (w : Work) :
      Moves settings sh (.holding w) (.dropped w.srcFp) .idle
        { sh with pending := set sh.pending w.srcFp [], active := sh.active - 1 }
  | fail (s : Standing) : Moves settings sh s .failed s.afterFailure { sh with stopped := true }

theorem moves_of_selects {settings : Settings} {c c' : Coordinator} {current : Option String}
    {reply : Coordinator.Selected} (h : Coordinator.Selects settings c current c' reply) :
    Moves settings c.shape .idle (noteOfSelected reply) reply.standing c'.shape := by
  cases h with
  | stopped hStopped => exact .rest .idle
  | screens hScreens => exact .stop
  | steps hSteps => exact .stop
  | completed hRuns hActive hDrained => exact .stop
  | wait hRuns hActive hDrained => exact .rest .idle
  | work o hRuns hScreens hSteps hUntried =>
    exact @Moves.take settings c.shape ⟨o.src, o.action, c.path o.src, o.replayNeeded⟩ o.rest hRuns hScreens hSteps
      hUntried

theorem moves_of_protocol {settings : Settings} {s s' : Standing} {i : Statement} {e : ε} {c : Coordinator}
    (h : Protocol s i (exec settings i e c).2 s') :
    Moves settings c.shape s (noteOf i (exec settings i e c).2) s' (exec settings i e c).1.shape := by
  generalize hReply : (exec settings i e c).2 = reply at h
  cases h with
  | device s seen => exact .rest s
  | alert s path dismissed => exact .rest s
  | select current selected =>
    subst hReply
    exact moves_of_selects (Coordinator.selects settings c current)
  | crash w path => exact .release w
  | known w src action dst dismissed path =>
    obtain ⟨hNew, -⟩ | ⟨-, hShape⟩ := Coordinator.recordEdge_cases settings c src action dst dismissed path
    · exact nomatch hNew.symm.trans hReply
    · change Moves _ _ _ _ _ (c.recordEdge settings src action dst dismissed path).1.shape
      rw [hShape]
      exact @Moves.release settings c.shape w
  | found w src action dst dismissed path =>
    obtain ⟨-, hNew, hFree, hShape⟩ | ⟨hOld, -⟩ :=
      Coordinator.recordEdge_cases settings c src action dst dismissed path
    · change Moves _ _ _ _ _ (c.recordEdge settings src action dst dismissed path).1.shape
      rw [hShape]
      exact @Moves.find settings c.shape w dst.value path hNew hFree
    · exact nomatch hOld.symm.trans hReply
  | discovered w node actions frontier =>
    subst hReply
    change Moves _ _ _ _ _ (c.finishDiscovery settings node actions).1.shape
    rw [Coordinator.shape_finishDiscovery]
    exact @Moves.publish settings c.shape w node _
  | giveBack w => exact .giveBack w
  | dropScreen w => exact .drop w
  | cancel w => exact .release w
  | fail s exc => exact .fail s

/-! ## The reservations -/

/-- The active count is the number of reservations that have not been released. -/
def Active (sh : Shape) (standings : List Standing) : Prop := sh.active = standings.countP Standing.reserved

section Moves

variable {settings : Settings} {sh sh' : Shape} {s s' : Standing} {note : Note} {standings : List Standing} {n : Nat}

theorem Active.move (h : Active sh standings) (hStands : standings[n]? = some s)
    (hMove : Moves settings sh s note s' sh') : Active sh' (standings.set n s') := by
  have hCount := @countP_set _ Standing.reserved _ _ _ s' hStands
  rw [Active] at h ⊢
  cases hMove with
  | rest => omega
  | stop =>
    simp only at hCount ⊢
    omega
  | fail =>
    have hSame : s.afterFailure.reserved = s.reserved := by
      cases s with
      | _ => rfl
    rw [hSame] at hCount
    simp only
    omega
  | _ =>
    simp only [Standing.reserved, if_true, if_false, Bool.false_eq_true] at hCount ⊢
    omega

/-- Every screen with untried actions, and every screen a worker acts from, has a path and a node. -/
structure Known (sh : Shape) (standings : List Standing) : Prop where
  untried : ∀ fp, sh.untried fp ≠ [] → sh.reached fp = true ∧ sh.known fp = true
  source : ∀ s ∈ standings, ∀ w, s.work = some w → sh.reached w.srcFp = true ∧ sh.known w.srcFp = true
  destination : ∀ s ∈ standings, ∀ fp, s.discovers fp = true → sh.reached fp = true

theorem reached_set (path : List Action) (fp fp' : String) (h : sh.reached fp' = true) :
    (get (set sh.pathTo fp path) fp').isSome = true := by
  rcases eq_or_ne fp' fp with rfl | hOther
  · rw [get_set_self]
    rfl
  · rw [get_set_ne _ _ hOther]
    exact h

theorem known_set (node : Node) (fp fp' : String) (h : sh.known fp' = true) :
    (get (set sh.nodes fp node) fp').isSome = true := by
  rcases eq_or_ne fp' fp with rfl | hOther
  · rw [get_set_self]
    rfl
  · rw [get_set_ne _ _ hOther]
    exact h

theorem Known.set (h : Known sh standings) (hReached : ∀ fp, sh.reached fp = true → sh'.reached fp = true)
    (hKnown : ∀ fp, sh.known fp = true → sh'.known fp = true)
    (hUntried : ∀ fp, sh'.untried fp ≠ [] → sh.untried fp ≠ [] ∨ sh'.reached fp = true ∧ sh'.known fp = true)
    (hSource : ∀ w, s'.work = some w → sh.reached w.srcFp = true ∧ sh.known w.srcFp = true)
    (hDestination : ∀ fp, s'.discovers fp = true → sh'.reached fp = true) : Known sh' (standings.set n s') := by
  constructor
  · intro fp hOpen
    obtain hOld | hNew := hUntried fp hOpen
    · obtain ⟨hPath, hNode⟩ := h.untried fp hOld
      exact ⟨hReached fp hPath, hKnown fp hNode⟩
    · exact hNew
  · intro t hMem w hWork
    obtain hOld | rfl := List.mem_or_eq_of_mem_set hMem
    · obtain ⟨hPath, hNode⟩ := h.source t hOld w hWork
      exact ⟨hReached _ hPath, hKnown _ hNode⟩
    · obtain ⟨hPath, hNode⟩ := hSource w hWork
      exact ⟨hReached _ hPath, hKnown _ hNode⟩
  · intro t hMem fp hDiscovers
    obtain hOld | rfl := List.mem_or_eq_of_mem_set hMem
    · exact hReached fp (h.destination t hOld fp hDiscovers)
    · exact hDestination fp hDiscovers

theorem Known.setIdle (h : Known sh standings) (hReached : ∀ fp, sh.reached fp = true → sh'.reached fp = true)
    (hKnown : ∀ fp, sh.known fp = true → sh'.known fp = true)
    (hUntried : ∀ fp, sh'.untried fp ≠ [] → sh.untried fp ≠ [] ∨ sh'.reached fp = true ∧ sh'.known fp = true) :
    Known sh' (standings.set n .idle) := by
  refine h.set hReached hKnown hUntried ?_ ?_
  · intro w hWork
    cases hWork
  · intro fp hDiscovers
    cases hDiscovers

theorem untried_set (fp : String) (actions : List Action) (fp' : String) :
    (get (set sh.pending fp actions) fp').getD [] = if fp' = fp then actions else sh.untried fp' := by
  split
  · rename_i hSame
    rw [hSame, get_set_self]
    rfl
  · rename_i hOther
    rw [get_set_ne _ _ hOther]
    rfl

theorem untried_of_set {fp : String} {actions : List Action} (hFp : sh.reached fp = true ∧ sh.known fp = true)
    {fp' : String} (h : (get (PyValue.set sh.pending fp actions) fp').getD [] ≠ []) :
    sh.untried fp' ≠ [] ∨ sh.reached fp' = true ∧ sh.known fp' = true := by
  rw [untried_set] at h
  split at h
  · rename_i hSame
    exact .inr (hSame ▸ hFp)
  · exact .inl h

theorem Known.move (h : Known sh standings) (hStands : standings[n]? = some s)
    (hMove : Moves settings sh s note s' sh') : Known sh' (standings.set n s') := by
  have hMem : s ∈ standings := List.mem_of_getElem? hStands
  have hSource := h.source s hMem
  have hDestination := h.destination s hMem
  cases hMove with
  | rest => exact h.set (fun _ => id) (fun _ => id) (fun _ => .inl) hSource hDestination
  | stop => exact h.set (fun _ => id) (fun _ => id) (fun _ => .inl) hSource hDestination
  | take w rest hRuns hScreens hSteps hUntried =>
    have hSrc := h.untried w.srcFp (hUntried ▸ List.cons_ne_nil _ _)
    refine h.set (fun _ => id) (fun _ => id) (fun fp hOpen => untried_of_set hSrc hOpen) ?_ ?_
    · intro w' hWork
      obtain rfl := Option.some.inj hWork
      exact hSrc
    · intro fp hDiscovers
      cases hDiscovers
  | release w => exact h.setIdle (fun _ => id) (fun _ => id) (fun _ => .inl)
  | find w fp path hNew hFree =>
    refine h.set (fun fp' => reached_set path fp fp') (fun _ => id) (fun _ => .inl) hSource ?_
    intro fp' hDiscovers
    obtain rfl : fp = fp' := of_decide_eq_true hDiscovers
    exact Option.isSome_iff_exists.mpr ⟨path, get_set_self ..⟩
  | publish w node frontier =>
    have hReached := hDestination node.fingerprint (decide_eq_true rfl)
    refine h.setIdle (fun _ => id) (fun fp' => known_set node node.fingerprint fp') ?_
    intro fp' hOpen
    change (get (PyValue.set sh.pending node.fingerprint frontier) fp').getD [] ≠ [] at hOpen
    rw [untried_set] at hOpen
    split at hOpen
    · rename_i hSame
      refine .inr ⟨hSame ▸ hReached, ?_⟩
      rw [hSame]
      exact Option.isSome_iff_exists.mpr ⟨node, get_set_self ..⟩
    · exact .inl hOpen
  | giveBack w =>
    exact h.setIdle (fun _ => id) (fun _ => id) (fun fp hOpen => untried_of_set (hSource w rfl) hOpen)
  | drop w =>
    exact h.setIdle (fun _ => id) (fun _ => id) (fun fp hOpen => untried_of_set (hSource w rfl) hOpen)
  | fail =>
    have hFails : s.afterFailure.work = none ∧ ∀ fp, s.afterFailure.discovers fp = false := by
      cases s with
      | _ => exact ⟨rfl, fun _ => rfl⟩
    refine h.set (fun _ => id) (fun _ => id) (fun _ => .inl) ?_ ?_
    · intro w hWork
      exact nomatch hFails.1.symm.trans hWork
    · intro fp hDiscovers
      exact nomatch (hFails.2 fp).symm.trans hDiscovers

/-- A worker that failed with a reservation has stopped the crawl. -/
def Failed (sh : Shape) (standings : List Standing) (past : List (Nat × Note)) : Prop :=
  ∀ s ∈ standings, s = .stuck → sh.stopped = true ∧ ∃ n, (n, Note.failed) ∈ past

theorem Failed.move {past : List (Nat × Note)} (h : Failed sh standings past) (hStands : standings[n]? = some s)
    (hMove : Moves settings sh s note s' sh') : Failed sh' (standings.set n s') (past ++ [(n, note)]) := by
  intro t hMem hStuck
  obtain hOld | rfl := List.mem_or_eq_of_mem_set hMem
  · obtain ⟨hStopped, m, hFailed⟩ := h t hOld hStuck
    refine ⟨?_, m, List.mem_append_left _ hFailed⟩
    cases hMove with
    | stop => rfl
    | fail => rfl
    | _ => exact hStopped
  · cases hMove with
    | rest =>
      obtain ⟨hStopped, m, hFailed⟩ := h _ (List.mem_of_getElem? hStands) hStuck
      exact ⟨hStopped, m, List.mem_append_left _ hFailed⟩
    | fail => exact ⟨rfl, n, List.mem_append_right _ List.mem_cons_self⟩
    | _ => cases hStuck

/-! ## What is handed out -/

def Note.handsOut : Note → Bool
  | .handed _ _ => true
  | _ => false

/-- How often a statement put this action into the frontier of this screen. -/
def Note.queues (fp : String) (a : Action) : Note → Nat
  | .published fp' frontier => if fp' = fp then frontier.count a else 0
  | _ => 0

def handedCount (fp : String) (a : Action) (past : List (Nat × Note)) : Nat :=
  past.countP fun p => p.2 = .handed fp a

def gaveBackCount (fp : String) (a : Action) (past : List (Nat × Note)) : Nat :=
  past.countP fun p => p.2 = .gaveBack fp a

def queuedCount (fp : String) (a : Action) (past : List (Nat × Note)) : Nat :=
  (past.map fun p => p.2.queues fp a).sum

/-- An action is handed out as often as it was queued or given back, or is still untried, or has been dropped. -/
def HandedOut (boot sh : Shape) (past : List (Nat × Note)) : Prop :=
  ∀ fp a, handedCount fp a past + (sh.untried fp).count a ≤
    (boot.untried fp).count a + queuedCount fp a past + gaveBackCount fp a past

/-- What a statement hands out and leaves untried was untried, or it queues it or gives it back. -/
theorem Moves.balance (h : Moves settings sh s note s' sh') (fp : String) (a : Action) :
    (if note = .handed fp a then 1 else 0) + (sh'.untried fp).count a ≤
      (sh.untried fp).count a + note.queues fp a + if note = .gaveBack fp a then 1 else 0 := by
  cases h with
  | take w rest hRuns hScreens hSteps hUntried =>
    change _ + ((get (set sh.pending w.srcFp rest) fp).getD []).count a ≤ _
    rw [untried_set]
    by_cases hSrc : fp = w.srcFp
    · rw [if_pos hSrc, hSrc, hUntried, List.count_cons]
      by_cases hAction : w.action = a
      · simp [hAction, Note.queues]
        omega
      · simp [hAction, Note.queues]
    · simp [hSrc, Ne.symm hSrc, Note.queues]
  | publish w node frontier =>
    change _ + ((get (set sh.pending node.fingerprint frontier) fp).getD []).count a ≤ _
    rw [untried_set]
    by_cases hFp : fp = node.fingerprint
    · simp [hFp, Note.queues]
    · simp [hFp]
  | giveBack w =>
    change _ + ((get (set sh.pending w.srcFp (w.action :: sh.untried w.srcFp)) fp).getD []).count a ≤ _
    rw [untried_set]
    by_cases hSrc : fp = w.srcFp
    · rw [if_pos hSrc, hSrc, List.count_cons]
      by_cases hAction : w.action = a
      · simp [hAction, Note.queues]
      · simp [hAction, Note.queues]
    · simp [hSrc, Note.queues]
  | drop w =>
    change _ + ((get (set sh.pending w.srcFp []) fp).getD []).count a ≤ _
    rw [untried_set]
    by_cases hSrc : fp = w.srcFp
    · simp [hSrc]
    · simp [hSrc, Note.queues]
  | find w fp' path hNew hFree =>
    change 0 + (sh.untried fp).count a ≤ _
    omega
  | _ =>
    change 0 + (sh.untried fp).count a ≤ (sh.untried fp).count a + 0 + 0
    omega

theorem HandedOut.move {boot : Shape} {past : List (Nat × Note)} (h : HandedOut boot sh past)
    (hMove : Moves settings sh s note s' sh') : HandedOut boot sh' (past ++ [(n, note)]) := by
  intro fp a
  have hOld := h fp a
  have hNew := hMove.balance fp a
  simp only [handedCount, gaveBackCount, queuedCount, List.countP_append, List.map_append, List.sum_append,
    List.countP_singleton, List.map_cons, List.map_nil, List.sum_singleton, decide_eq_true_eq] at hOld ⊢
  omega

/-! ## The budgets -/

def Budget (settings : Settings) (sh : Shape) (past : List (Nat × Note)) : Prop :=
  sh.steps = past.countP (fun p => p.2.handsOut) ∧ sh.steps ≤ settings.maxSteps

theorem Budget.move {past : List (Nat × Note)} (h : Budget settings sh past)
    (hMove : Moves settings sh s note s' sh') : Budget settings sh' (past ++ [(n, note)]) := by
  obtain ⟨hCount, hLimit⟩ := h
  rw [Budget, List.countP_append, List.countP_singleton]
  cases hMove with
  | take w rest hRuns hScreens hSteps hUntried =>
    change sh.steps + 1 = _ + 1 ∧ sh.steps + 1 ≤ settings.maxSteps
    omega
  | _ =>
    change sh.steps = _ + 0 ∧ sh.steps ≤ settings.maxSteps
    omega

/-- Each reservation may still add a screen. -/
def Room (settings : Settings) (sh : Shape) (standings : List Standing) : Prop :=
  sh.nodes.length + standings.countP Standing.reserved + 1 ≤ settings.maxScreens + standings.length

theorem length_set_le {κ β : Type} [DecidableEq κ] (d : List (κ × β)) (k : κ) (b : β) :
    (set d k b).length ≤ d.length + 1 := by
  induction d with
  | nil => exact le_rfl
  | cons item d ih =>
    rw [PyValue.set]
    split
    · exact Nat.le_succ _
    · exact Nat.succ_le_succ ih

theorem Room.move (h : Room settings sh standings) (hStands : standings[n]? = some s)
    (hMove : Moves settings sh s note s' sh') : Room settings sh' (standings.set n s') := by
  have hCount := @countP_set _ Standing.reserved _ _ _ s' hStands
  rw [Room] at h ⊢
  rw [List.length_set]
  cases hMove with
  | take w rest hRuns hScreens hSteps hUntried =>
    -- the worker saw room for a screen, and the others hold at most one reservation each
    have hAll : (standings.set n (.holding w)).countP Standing.reserved ≤ standings.length :=
      List.countP_le_length.trans (List.length_set ..).le
    simp only
    omega
  | publish w node frontier =>
    have hLength := length_set_le sh.nodes node.fingerprint node
    simp only [Standing.reserved, if_true, if_false, Bool.false_eq_true] at hCount ⊢
    omega
  | rest => omega
  | stop =>
    simp only at hCount ⊢
    omega
  | fail =>
    have hSame : s.afterFailure.reserved = s.reserved := by
      cases s with
      | _ => rfl
    rw [hSame] at hCount
    simp only
    omega
  | _ =>
    simp only [Standing.reserved, if_true, if_false, Bool.false_eq_true] at hCount ⊢
    omega

/-! ## Discoveries -/

def foundCount (fp : String) (past : List (Nat × Note)) : Nat := past.countP fun p => p.2 = .found fp

def Note.publishes (fp : String) : Note → Bool
  | .published fp' _ => fp' = fp
  | _ => false

def publishedCount (fp : String) (past : List (Nat × Note)) : Nat := past.countP fun p => p.2.publishes fp

/-- A screen is found at most once, and only by the worker that then publishes it. -/
structure Discovered (fp : String) (sh : Shape) (standings : List Standing) (past : List (Nat × Note)) : Prop where
  once : foundCount fp past ≤ 1
  taken : foundCount fp past = 1 → sh.known fp = true ∨ fp ∈ sh.discovering
  balance : publishedCount fp past + standings.countP (Standing.discovers fp) ≤ foundCount fp past
  finder : ∀ m s, standings[m]? = some s → s.discovers fp = true → (m, .found fp) ∈ past
  publisher : ∀ m p, (m, p) ∈ past → p.publishes fp = true → (m, .found fp) ∈ past

theorem Discovered.skip {fp : String} {past : List (Nat × Note)} (h : Discovered fp sh standings past)
    (hStands : standings[n]? = some s) (hFound : note ≠ .found fp) (hPublishes : note.publishes fp = false)
    (hKnown : sh.known fp = true ∨ fp ∈ sh.discovering → sh'.known fp = true ∨ fp ∈ sh'.discovering)
    (hDiscovers : s'.discovers fp = true → s.discovers fp = true) :
    Discovered fp sh' (standings.set n s') (past ++ [(n, note)]) := by
  have hCount := @countP_set _ (Standing.discovers fp) _ _ _ s' hStands
  have hFewer : (if s'.discovers fp = true then 1 else 0) ≤ if s.discovers fp = true then 1 else 0 := by
    by_cases hNow : s'.discovers fp = true
    · rw [if_pos hNow, if_pos (hDiscovers hNow)]
    · rw [if_neg hNow]
      exact Nat.zero_le _
  have hFoundCount : foundCount fp (past ++ [(n, note)]) = foundCount fp past := by
    simp [foundCount, hFound]
  have hPublishedCount : publishedCount fp (past ++ [(n, note)]) = publishedCount fp past := by
    simp [publishedCount, hPublishes]
  have hBalance := h.balance
  constructor
  · rw [hFoundCount]
    exact h.once
  · rw [hFoundCount]
    exact fun hOne => hKnown (h.taken hOne)
  · rw [hFoundCount, hPublishedCount]
    omega
  · intro m t hThread hNow
    apply List.mem_append_left
    rw [List.getElem?_set] at hThread
    split at hThread
    · rename_i hSame
      split at hThread
      · obtain rfl := Option.some.inj hThread
        exact hSame ▸ h.finder n s hStands (hDiscovers hNow)
      · cases hThread
    · exact h.finder m t hThread hNow
  · intro m p hMem hNow
    apply List.mem_append_left
    obtain hOld | hNew := List.mem_append.mp hMem
    · exact h.publisher m p hOld hNow
    · obtain ⟨-, rfl⟩ := Prod.mk.inj (List.mem_singleton.mp hNew)
      exact nomatch hPublishes.symm.trans hNow

theorem Discovered.find {fp : String} {past : List (Nat × Note)} (h : Discovered fp sh standings past) {w : Work}
    (hStands : standings[n]? = some (.holding w)) (hNew : sh.known fp = false) (hFree : fp ∉ sh.discovering)
    (hDiscovering : fp ∈ sh'.discovering) :
    Discovered fp sh' (standings.set n (.discovering w fp)) (past ++ [(n, .found fp)]) := by
  have hCount := @countP_set _ (Standing.discovers fp) _ _ _ (.discovering w fp) hStands
  have hNone : foundCount fp past = 0 := by
    have hOnce := h.once
    by_contra hSome
    obtain hKnown | hTaken := h.taken (by omega)
    · exact nomatch hNew.symm.trans hKnown
    · exact hFree hTaken
  have hFoundCount : foundCount fp (past ++ [(n, .found fp)]) = 1 := by
    rw [foundCount, List.countP_append]
    rw [foundCount] at hNone
    rw [hNone]
    simp
  have hPublishedCount : publishedCount fp (past ++ [(n, .found fp)]) = publishedCount fp past := by
    simp [publishedCount, Note.publishes]
  have hBalance := h.balance
  constructor
  · exact hFoundCount.le
  · exact fun _ => .inr hDiscovering
  · rw [hFoundCount, hPublishedCount]
    simp only [Standing.discovers, decide_true, if_true, Bool.false_eq_true, if_false] at hCount
    omega
  · intro m t hThread hNow
    rw [List.getElem?_set] at hThread
    split at hThread
    · rename_i hSame
      exact List.mem_append_right _ (hSame ▸ List.mem_cons_self)
    · exact List.mem_append_left _ (h.finder m t hThread hNow)
  · intro m p hMem hNow
    apply List.mem_append_left
    obtain hOld | hNew := List.mem_append.mp hMem
    · exact h.publisher m p hOld hNow
    · obtain ⟨-, rfl⟩ := Prod.mk.inj (List.mem_singleton.mp hNew)
      cases hNow

theorem Discovered.publish {fp : String} {past : List (Nat × Note)} (h : Discovered fp sh standings past) {w : Work}
    (hStands : standings[n]? = some (.discovering w fp)) {frontier : List Action} (hKnown : sh'.known fp = true) :
    Discovered fp sh' (standings.set n .idle) (past ++ [(n, .published fp frontier)]) := by
  have hCount := @countP_set _ (Standing.discovers fp) _ _ _ .idle hStands
  have hFinder := h.finder n _ hStands (decide_eq_true rfl)
  have hFoundCount : foundCount fp (past ++ [(n, .published fp frontier)]) = foundCount fp past := by
    simp [foundCount]
  have hPublishedCount : publishedCount fp (past ++ [(n, .published fp frontier)]) = publishedCount fp past + 1 := by
    simp [publishedCount, Note.publishes]
  have hBalance := h.balance
  constructor
  · rw [hFoundCount]
    exact h.once
  · exact fun _ => .inl hKnown
  · rw [hFoundCount, hPublishedCount]
    simp only [Standing.discovers, decide_true, if_true, Bool.false_eq_true, if_false] at hCount
    omega
  · intro m t hThread hNow
    apply List.mem_append_left
    rw [List.getElem?_set] at hThread
    split at hThread
    · split at hThread
      · obtain rfl := Option.some.inj hThread
        cases hNow
      · cases hThread
    · exact h.finder m t hThread hNow
  · intro m p hMem hNow
    apply List.mem_append_left
    obtain hOld | hNew := List.mem_append.mp hMem
    · exact h.publisher m p hOld hNow
    · obtain ⟨rfl, -⟩ := Prod.mk.inj (List.mem_singleton.mp hNew)
      exact hFinder

theorem Discovered.move {fp : String} {past : List (Nat × Note)} (h : Discovered fp sh standings past)
    (hStands : standings[n]? = some s) (hMove : Moves settings sh s note s' sh') :
    Discovered fp sh' (standings.set n s') (past ++ [(n, note)]) := by
  cases hMove with
  | find w fp' path hNew hFree =>
    rcases eq_or_ne fp' fp with rfl | hOther
    · exact h.find hStands hNew hFree List.mem_cons_self
    · refine h.skip hStands (fun hNote => hOther (Note.found.inj hNote)) rfl ?_ ?_
      · exact Or.imp_right (List.mem_cons_of_mem fp')
      · intro hDiscovers
        exact absurd (of_decide_eq_true hDiscovers) hOther
  | publish w node frontier =>
    rcases eq_or_ne node.fingerprint fp with rfl | hOther
    · exact h.publish hStands (Option.isSome_iff_exists.mpr ⟨node, get_set_self ..⟩)
    · refine h.skip hStands (nofun) (decide_eq_false hOther) ?_ ?_
      · apply Or.imp (known_set node node.fingerprint fp)
        exact fun hMem => (List.mem_erase_of_ne hOther.symm).mpr hMem
      · intro hDiscovers
        cases hDiscovers
  | rest => exact h.skip hStands (nofun) rfl id id
  | fail =>
    refine h.skip hStands (nofun) rfl id ?_
    intro hDiscovers
    cases s with
    | _ => cases hDiscovers
  | _ =>
    refine h.skip hStands (nofun) rfl id ?_
    intro hDiscovers
    cases hDiscovers

end Moves

/-! ## Runs -/

/-- What a crawl starts its workers on. -/
structure Booted (sh : Shape) : Prop where
  active : sh.active = 0
  steps : sh.steps = 0
  known : ∀ fp, sh.untried fp ≠ [] → sh.reached fp = true ∧ sh.known fp = true

structure Kept (settings : Settings) (boot sh : Shape) (standings : List Standing) (past : List (Nat × Note)) :
    Prop where
  active : Active sh standings
  known : Known sh standings
  failed : Failed sh standings past
  handedOut : HandedOut boot sh past
  budget : Budget settings sh past
  room : boot.nodes.length < settings.maxScreens → Room settings sh standings
  discovered : ∀ fp, Discovered fp sh standings past

theorem Kept.start {settings : Settings} {boot : Shape} (h : Booted boot) : Kept settings boot boot [] [] where
  active := h.active
  known := {
    untried := h.known
    source := fun s hMem => absurd hMem List.not_mem_nil
    destination := fun s hMem => absurd hMem List.not_mem_nil }
  failed s hMem := absurd hMem List.not_mem_nil
  handedOut fp a := le_of_eq (Nat.zero_add _)
  budget := ⟨h.steps, h.steps.le.trans (Nat.zero_le _)⟩
  room hFew := by
    rw [Room]
    simp only [List.countP_nil, List.length_nil]
    omega
  discovered fp := {
    once := Nat.zero_le 1
    taken := fun hOne => absurd hOne Nat.zero_ne_one
    balance := le_rfl
    finder := fun m s hThread => absurd (List.mem_of_getElem? hThread) List.not_mem_nil
    publisher := fun m p hMem => absurd hMem List.not_mem_nil }

theorem Kept.move {settings : Settings} {boot sh sh' : Shape} {standings : List Standing} {past : List (Nat × Note)}
    (h : Kept settings boot sh standings past) {n : Nat} {s s' : Standing} {note : Note}
    (hStands : standings[n]? = some s) (hMove : Moves settings sh s note s' sh') :
    Kept settings boot sh' (standings.set n s') (past ++ [(n, note)]) where
  active := h.active.move hStands hMove
  known := h.known.move hStands hMove
  failed := h.failed.move hStands hMove
  handedOut := h.handedOut.move hMove
  budget := h.budget.move hMove
  room hFew := (h.room hFew).move hStands hMove
  discovered fp := (h.discovered fp).move hStands hMove

theorem Kept.join {settings : Settings} {boot sh : Shape} {standings : List Standing} {past : List (Nat × Note)}
    (h : Kept settings boot sh standings past) : Kept settings boot sh (standings ++ [.idle]) past where
  active := by
    rw [Active, List.countP_append]
    exact h.active
  known := {
    untried := h.known.untried
    source := by
      intro s hMem w hWork
      obtain hOld | hNew := List.mem_append.mp hMem
      · exact h.known.source s hOld w hWork
      · obtain rfl := List.mem_singleton.mp hNew
        cases hWork
    destination := by
      intro s hMem fp hDiscovers
      obtain hOld | hNew := List.mem_append.mp hMem
      · exact h.known.destination s hOld fp hDiscovers
      · obtain rfl := List.mem_singleton.mp hNew
        cases hDiscovers }
  failed := by
    intro s hMem hStuck
    obtain hOld | hNew := List.mem_append.mp hMem
    · exact h.failed s hOld hStuck
    · obtain rfl := List.mem_singleton.mp hNew
      cases hStuck
  handedOut := h.handedOut
  budget := h.budget
  room hFew := by
    have hRoom := h.room hFew
    rw [Room] at hRoom ⊢
    rw [List.countP_append, List.length_append]
    simp only [List.countP_singleton, Standing.reserved, Bool.false_eq_true, if_false, List.length_singleton]
    omega
  discovered fp := {
    once := (h.discovered fp).once
    taken := (h.discovered fp).taken
    balance := by
      rw [List.countP_append]
      exact (h.discovered fp).balance
    finder := by
      intro m s hThread hDiscovers
      rw [List.getElem?_append] at hThread
      split at hThread
      · exact (h.discovered fp).finder m s hThread hDiscovers
      · obtain rfl := List.mem_singleton.mp (List.mem_of_getElem? hThread)
        cases hDiscovers
    publisher := (h.discovered fp).publisher }

section Runs

variable {settings : Settings} {crew : Crew ε κ τ} {boot : Coordinator}

abbrev CrawlConfig (ε κ τ : Type) := Config Coordinator Statement (Reply ε) ε κ τ

def standings (crew : Crew ε κ τ) (st : CrawlConfig ε κ τ) : List Standing :=
  st.threads.map fun thread => crew.standing thread.2

theorem kept_reached (hBoot : Booted boot.shape) {st : CrawlConfig ε κ τ}
    (h : (crew.machine settings).Reaches (.init boot) st) :
    Kept settings boot.shape st.shared.shape (standings crew st) (notes st.history) := by
  refine h.keeps (P := fun st => Kept settings boot.shape st.shared.shape (standings crew st) (notes st.history))
    ?_ (Kept.start hBoot)
  intro st fin label _ hKept hStep
  obtain ⟨c, -, rfl⟩ | ⟨n, e, c, p, i, rest, -, hThread, hNext, rfl⟩ := Machine.step_event hStep
  · rw [standings, List.map_append, List.map_singleton]
    change Kept _ _ _ (_ ++ [crew.standing (crew.start c)]) _
    rw [crew.starts]
    exact hKept.join
  · have hStands : (standings crew st)[n]? = some (crew.standing p) := by
      rw [standings, List.getElem?_map, hThread]
      rfl
    have hProtocol := crew.follows p i rest (exec settings i e st.shared).2 hNext
    have hMoved := hKept.move hStands (moves_of_protocol hProtocol)
    rw [standings, notes, List.map_set, List.map_append]
    exact hMoved

end Runs

end Bajutsu.Crawl
