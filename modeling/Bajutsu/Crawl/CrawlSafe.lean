import Bajutsu.Crawl.CoordinatorSafe

/-!
# Crawls are safe

The coordinator's promises for every crew that follows the protocol, from each way in which a crawl starts.
-/

namespace Bajutsu.Crawl

open PyValue Interleaving

/-! ## How a crawl starts -/

section Boots

variable {settings : Settings} {rt : Runtime}

theorem Booted.seed {sh : Shape} (h : Booted sh) {fp : String} (hFp : sh.reached fp = true ∧ sh.known fp = true)
    (actions : List Action) : Booted { sh with pending := set sh.pending fp actions } where
  active := h.active
  steps := h.steps
  known fp' hOpen := (untried_of_set hFp hOpen).elim (h.known fp') id

theorem Booted.path {sh : Shape} (h : Booted sh) (fp : String) (path : List Action) :
    Booted { sh with pathTo := set sh.pathTo fp path } where
  active := h.active
  steps := h.steps
  known fp' hOpen := (h.known fp' hOpen).imp_left (reached_set path fp fp')

theorem Booted.node {sh : Shape} (h : Booted sh) (fp : String) (node : Node) :
    Booted { sh with nodes := set sh.nodes fp node } where
  active := h.active
  steps := h.steps
  known fp' hOpen := (h.known fp' hOpen).imp_right (known_set node fp fp')

theorem booted_map (screenMap : ScreenMap) (pathTo : List (String × List Action)) :
    Booted (Coordinator.shape { screenMap := screenMap, pathTo := pathTo }) where
  active := rfl
  steps := rfl
  known _ hOpen := absurd rfl hOpen

theorem shape_alertIfAny (path : List Action) (dismissed : List String) (c : Coordinator) :
    (alertIfAny settings path dismissed c).shape = c.shape := by
  rw [alertIfAny]
  split
  · rfl
  · rfl

theorem reached_set_self (sh : Shape) (fp : String) (path : List Action) :
    Coordinator.Shape.reached { sh with pathTo := set sh.pathTo fp path } fp = true :=
  Option.isSome_iff_exists.mpr ⟨path, get_set_self ..⟩

theorem booted_publish {c : Coordinator} (h : Booted c.shape) {node : Node}
    (hPath : c.shape.reached node.fingerprint = true) (actions : List Action) :
    Booted (c.publish settings node actions).2.shape ∧
      (c.publish settings node actions).2.shape.reached node.fingerprint = true ∧
      (c.publish settings node actions).2.shape.known node.fingerprint = true := by
  rw [Coordinator.shape_publish]
  exact ⟨h.node _ _, hPath, Option.isSome_iff_exists.mpr ⟨node, get_set_self ..⟩⟩

theorem booted_publishIfNew {c : Coordinator} (h : Booted c.shape) {elements : List Element}
    (hPath : c.shape.reached (fingerprint rt elements).value = true) (guided : List Action) :
    Booted (publishIfNew settings rt elements guided c).shape ∧
      (publishIfNew settings rt elements guided c).shape.reached (fingerprint rt elements).value = true ∧
      (publishIfNew settings rt elements guided c).shape.known (fingerprint rt elements).value = true := by
  rw [publishIfNew]
  split
  · rename_i hKnown
    exact ⟨h, hPath, hKnown⟩
  · exact booted_publish h hPath guided

theorem booted_seedScreen {base : SavedMap} {walk : String → Walked} {c : Coordinator} (h : Booted c.shape)
    (hPlan : c.screenMap.plan = base.plan) (hNodes : c.screenMap.nodes = base.nodes) (fp : String) :
    Booted (seedScreen settings rt walk c fp).shape ∧
      (seedScreen settings rt walk c fp).screenMap.plan = base.plan ∧
      (seedScreen settings rt walk c fp).screenMap.nodes = base.nodes := by
  rw [seedScreen]
  split
  · exact ⟨h, hPlan, hNodes⟩
  rename_i hRemaining
  split
  · exact ⟨h, hPlan, hNodes⟩
  · rename_i elements dismissed hWalk
    split
    · exact ⟨h, hPlan, hNodes⟩
    have hKnown : (get base.nodes fp).isSome = true := by
      rw [hPlan, remaining] at hRemaining
      cases hOps : get base.plan fp with
      | none => exact absurd (by rw [hOps]; rfl) hRemaining
      | some ops =>
        refine base.planned fp ops hOps ?_
        rintro rfl
        exact hRemaining (by rw [hOps]; rfl)
    generalize hAlerted : (if dismissed = [] then c else
      c.recordAlert settings ((get c.screenMap.paths fp).getD []) dismissed) = alerted
    have hBooted : Booted alerted.shape ∧ alerted.screenMap.plan = base.plan ∧ alerted.screenMap.nodes = base.nodes := by
      rw [← hAlerted]
      split
      · exact ⟨h, hPlan, hNodes⟩
      · exact ⟨h, hPlan, hNodes⟩
    obtain ⟨hShape, hPlan', hNodes'⟩ := hBooted
    simp only [hAlerted]
    split
    · exact ⟨hShape, hPlan', hNodes'⟩
    · refine ⟨(hShape.path fp _).seed ⟨reached_set_self alerted.shape fp _, ?_⟩ _, hPlan', hNodes'⟩
      change (get alerted.screenMap.nodes fp).isSome = true
      rw [hNodes']
      exact hKnown

theorem booted_seedScreens {base : SavedMap} {walk : String → Walked} (fps : List String) {c : Coordinator}
    (h : Booted c.shape) (hPlan : c.screenMap.plan = base.plan) (hNodes : c.screenMap.nodes = base.nodes) :
    Booted (fps.foldl (seedScreen settings rt walk) c).shape := by
  induction fps generalizing c with
  | nil => exact h
  | cons fp fps ih =>
    obtain ⟨hShape, hPlan', hNodes'⟩ := @booted_seedScreen settings rt base walk _ h hPlan hNodes fp
    exact ih hShape hPlan' hNodes'

theorem bootstrap_booted (settings : Settings) (rt : Runtime) (boot : Boot) :
    Booted (bootstrap settings rt boot).1.shape := by
  cases boot with
  | fresh start dismissed guided =>
    have hStart : Booted (alertIfAny settings [] dismissed
        { screenMap := {}, pathTo := [((fingerprint rt start).value, [])] }).shape := by
      rw [shape_alertIfAny]
      exact booted_map _ _
    have hPath : Coordinator.Shape.reached (alertIfAny settings [] dismissed
        { screenMap := {}, pathTo := [((fingerprint rt start).value, [])] }).shape (fingerprint rt start).value = true := by
      rw [shape_alertIfAny]
      exact Option.isSome_iff_exists.mpr ⟨[], get_set_self [] _ _⟩
    obtain ⟨hPublished, hKnown⟩ := @booted_publish settings _ hStart
      (nodeOf start settings.spelling (fingerprint rt start) guided) hPath guided
    exact hPublished.seed hKnown _
  | resume base seedPath seedOps dismissed walked guided =>
    have hStart : Booted (alertIfAny settings [] dismissed { screenMap := base }).shape := by
      rw [shape_alertIfAny]
      exact booted_map _ _
    cases walked with
    | stale => exact ⟨hStart.active, hStart.steps, hStart.known⟩
    | landed elements _ =>
      let c := alertIfAny settings [] dismissed { screenMap := base }
      have hPathed : Booted (Coordinator.shape
          { c with pathTo := set c.pathTo (fingerprint rt elements).value seedPath }) := hStart.path _ _
      obtain ⟨hPublished, hKnown⟩ := @booted_publishIfNew settings rt _ hPathed elements
        (reached_set_self c.shape _ _) guided
      exact hPublished.seed hKnown seedOps
  | continuing base walk =>
    have hSeeded := @booted_seedScreens settings rt base walk (sorted (base.plan.map Prod.fst)) _
      (booted_map base.toScreenMap []) rfl rfl
    change Booted (reconstructFrontier settings rt walk base.toScreenMap).shape
    rw [reconstructFrontier]
    dsimp only
    split
    · exact ⟨hSeeded.active, hSeeded.steps, hSeeded.known⟩
    · split
      · exact ⟨hSeeded.active, hSeeded.steps, hSeeded.known⟩
      · exact ⟨hSeeded.active, hSeeded.steps, hSeeded.known⟩

end Boots

/-! ## Every run -/

section Safety

variable {ε κ τ : Type} (settings : Settings) (crew : Crew ε κ τ) (boot : Coordinator)

/-- The workers that have a reservation. -/
def outstanding (st : CrawlConfig ε κ τ) : Nat := (standings crew st).countP Standing.outstanding

def HasFailed (st : CrawlConfig ε κ τ) : Prop := ∃ n, (n, Note.failed) ∈ notes st.history

/-- What the coordinator promises in a state of a crawl. -/
structure Safe (st : CrawlConfig ε κ τ) : Prop where
  active : ¬HasFailed st → st.shared.active = outstanding crew st
  frontier : ∀ fp, st.shared.untried fp ≠ [] →
    (get st.shared.pathTo fp).isSome = true ∧ st.shared.known fp = true
  discoveredOnce : ∀ fp, foundCount fp (notes st.history) ≤ 1 ∧ publishedCount fp (notes st.history) ≤ 1
  publisher : ∀ fp n note, (n, note) ∈ notes st.history → note.publishes fp = true → (n, .found fp) ∈ notes st.history
  handedOut : ∀ fp a, handedCount fp a (notes st.history) ≤
    (boot.untried fp).count a + queuedCount fp a (notes st.history) + gaveBackCount fp a (notes st.history)
  steps : (notes st.history).countP (fun note => note.2.handsOut) ≤ settings.maxSteps
  screens : boot.screenMap.nodes.length < settings.maxScreens →
    st.shared.screenMap.nodes.length + 1 ≤ settings.maxScreens + st.threads.length
  completed : ∀ current, st.shared.screenMap.stopReason ≠ "completed" →
    (st.shared.selectNextWork settings current).1.screenMap.stopReason = "completed" →
      (∀ fp, st.shared.untried fp = []) ∧ outstanding crew st = 0
  blocks : ∀ (n : Nat) (c : κ) (p : τ) (current : Option String)
    (rest : Reply ε (.selectNextWork current) → τ), st.threads[n]? = some (c, p) →
      crew.next p = some ⟨.selectNextWork current, rest⟩ →
      (st.shared.selectNextWork settings current).2 = .wait →
        ∃ (m : Nat) (c' : κ) (q : τ), m ≠ n ∧ st.threads[m]? = some (c', q) ∧ (crew.standing q).outstanding = true

variable {settings crew boot}

theorem outstanding_le (st : CrawlConfig ε κ τ) :
    outstanding crew st ≤ (standings crew st).countP Standing.reserved := by
  apply List.countP_mono_left
  intro s _ hOutstanding
  cases s with
  | idle => exact hOutstanding
  | _ => rfl

theorem outstanding_eq {st : CrawlConfig ε κ τ} (h : ∀ s ∈ standings crew st, s ≠ .stuck) :
    outstanding crew st = (standings crew st).countP Standing.reserved := by
  apply List.countP_congr
  intro s hMem
  cases s with
  | stuck => exact absurd rfl (h _ hMem)
  | _ => exact Iff.rfl

theorem idle_of_select {p : τ} {current : Option String} {rest : Reply ε (.selectNextWork current) → τ}
    (hNext : crew.next p = some ⟨.selectNextWork current, rest⟩) : crew.standing p = .idle := by
  have hFollows := crew.follows p (.selectNextWork current) rest Coordinator.Selected.wait hNext
  generalize crew.standing p = s at hFollows
  generalize crew.standing (rest Coordinator.Selected.wait) = s' at hFollows
  cases hFollows with
  | select => rfl

theorem completed_of_selects {c c' : Coordinator} {current : Option String} {reply : Coordinator.Selected}
    (h : Coordinator.Selects settings c current c' reply) (hBefore : c.screenMap.stopReason ≠ "completed")
    (hAfter : c'.screenMap.stopReason = "completed") : c.active = 0 ∧ ∀ fp, c.untried fp = [] := by
  have hOther : ∀ reason, reason ≠ "completed" → (c.finish reason).screenMap.stopReason ≠ "completed" := by
    intro reason hReason
    change (if c.screenMap.stopReason = "" then reason else c.screenMap.stopReason) ≠ _
    split
    · exact hReason
    · exact hBefore
  cases h with
  | screens hScreens => exact absurd hAfter (hOther _ (by decide))
  | steps hSteps => exact absurd hAfter (hOther _ (by decide))
  | completed hRuns hActive hDrained => exact ⟨hActive, hDrained⟩
  | _ => exact absurd hAfter hBefore

theorem waits_of_selects {c c' : Coordinator} {current : Option String}
    (h : Coordinator.Selects settings c current c' .wait) : c.stopped = false ∧ c.active ≠ 0 := by
  cases h with
  | wait hRuns hActive hDrained => exact ⟨hRuns, hActive⟩

/-- The coordinator keeps its promises in every state of every crawl. -/
theorem crawl_safe (settings : Settings) (rt : Runtime) (boot : Boot) (crew : Crew ε κ τ) {st : CrawlConfig ε κ τ}
    (h : (crew.machine settings).Reaches (.init (bootstrap settings rt boot).1) st) :
    Safe settings crew (bootstrap settings rt boot).1 st := by
  have hKept := kept_reached (bootstrap_booted settings rt boot) h
  have hActive : st.shared.active = (standings crew st).countP Standing.reserved := hKept.active
  constructor
  · intro hFine
    rw [hActive, outstanding_eq]
    intro s hMem hStuck
    exact hFine (hKept.failed s hMem hStuck).2
  · exact hKept.known.untried
  · intro fp
    have hOnce := (hKept.discovered fp).once
    have hBalance := (hKept.discovered fp).balance
    exact ⟨hOnce, by omega⟩
  · intro fp n note hMem hPublishes
    exact (hKept.discovered fp).publisher n note hMem hPublishes
  · intro fp a
    have hHanded : handedCount fp a (notes st.history) + (st.shared.untried fp).count a ≤ _ := hKept.handedOut fp a
    exact (Nat.le_add_right _ _).trans hHanded
  · obtain ⟨hCount, hLimit⟩ := hKept.budget
    exact hCount ▸ hLimit
  · intro hFew
    have hRoom : st.shared.screenMap.nodes.length + (standings crew st).countP Standing.reserved + 1 ≤
      settings.maxScreens + (standings crew st).length := hKept.room hFew
    rw [standings, List.length_map] at hRoom
    omega
  · intro current hBefore hAfter
    obtain ⟨hNone, hDrained⟩ := completed_of_selects (Coordinator.selects settings st.shared current) hBefore hAfter
    have hLess := @outstanding_le _ _ _ crew st
    refine ⟨hDrained, ?_⟩
    omega
  · intro n c p current rest hThread hNext hWait
    obtain ⟨hRuns, hSome⟩ := waits_of_selects (hWait ▸ Coordinator.selects settings st.shared current)
    have hPos : 0 < (standings crew st).countP Standing.reserved := by omega
    obtain ⟨s, hMem, hReserved⟩ := List.countP_pos_iff.mp hPos
    obtain ⟨m, hGet⟩ := List.mem_iff_getElem?.mp hMem
    rw [standings, List.getElem?_map] at hGet
    obtain ⟨⟨c', q⟩, hOther, rfl⟩ := Option.map_eq_some_iff.mp hGet
    refine ⟨m, c', q, ?_, hOther, ?_⟩
    · rintro rfl
      obtain ⟨-, rfl⟩ := Prod.mk.inj (Option.some.inj (hThread.symm.trans hOther))
      rw [idle_of_select hNext] at hReserved
      cases hReserved
    · cases hStands : crew.standing q with
      | idle =>
        change (crew.standing q).reserved = true at hReserved
        rw [hStands] at hReserved
        cases hReserved
      | stuck =>
        have hStopped := (hKept.failed _ hMem hStands).1
        cases hRuns.symm.trans hStopped
      | _ => rfl

/-- A crawl of an app with two screens: its worker taps the only control and discovers the second screen. -/
def twoScreens : Settings := ⟨⟨fun _ _ => "", id⟩, 50, 200, false⟩

def control (name : String) : Element := ⟨some name, none, ["button"], none, (0, 0, 44, 44), none, false⟩

def seesDetail : World where
  factory := none
  replay := .ok true
  act := .ok ([control "back", control "buy"], [])
  alive := .ok true
  guide := .ok [{ kind := .tap, target := "buy" }]
  heal := none

def homeBoot : Boot := .fresh [control "home", control "next"] [] [{ kind := .tap, target := "next" }]

def oneWorker : Crew World Lane Place :=
  crawlers ⟨id, id⟩ twoScreens.spelling ⟨false, false⟩ (some "home\nnext")

def detailFound : List (Label World Lane) := .call .primary :: List.replicate 5 (.run 0 seesDetail)

theorem crawl_safe_two :
    Safe twoScreens oneWorker (bootstrap twoScreens ⟨id, id⟩ homeBoot).1
      ((oneWorker.machine twoScreens).after (.init (bootstrap twoScreens ⟨id, id⟩ homeBoot).1) detailFound) :=
  crawl_safe twoScreens ⟨id, id⟩ homeBoot oneWorker (.after (by decide))

end Safety

end Bajutsu.Crawl
