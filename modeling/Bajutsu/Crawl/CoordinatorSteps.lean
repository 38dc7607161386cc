import Bajutsu.Crawl.Worker

/-!
# What the coordinator's methods do

Each method by what it leaves of the frontier, the paths, the screens and the counters.
-/

namespace Bajutsu.Crawl

open PyValue

namespace Coordinator

variable (settings : Settings) (c : Coordinator)

/-! ## The frontier as a function -/

theorem untried_of_not_mem {fp : String} (h : fp ∉ c.pending.map Prod.fst) : c.untried fp = [] := by
  rw [untried]
  cases hGet : get c.pending fp with
  | none => rfl
  | some actions => exact absurd (get_isSome_iff.mp (by rw [hGet]; rfl)) h

theorem offer_src {replayNeeded : Bool} {fp : String} {o : Offer} (h : c.offer replayNeeded fp = some o) :
    o.src = fp ∧ c.untried fp = o.action :: o.rest := by
  rw [offer] at h
  split at h
  · cases h
  · rename_i action rest hUntried
    cases h
    exact ⟨rfl, hUntried⟩

theorem offer_eq_none {replayNeeded : Bool} {fp : String} : c.offer replayNeeded fp = none ↔ c.untried fp = [] := by
  rw [offer]
  split
  · rename_i hUntried
    simp [hUntried]
  · rename_i action rest hUntried
    simp [hUntried]

theorem choose_some {current : Option String} {o : Offer} (h : c.choose current = some o) :
    c.untried o.src = o.action :: o.rest := by
  obtain hHere | ⟨-, hCheapest⟩ := Option.or_eq_some_iff.mp h
  · obtain ⟨fp, -, hOffer⟩ := Option.bind_eq_some_iff.mp hHere
    obtain ⟨hSrc, hUntried⟩ := c.offer_src hOffer
    rw [hSrc]
    exact hUntried
  · have hMem := List.argmin_mem hCheapest
    obtain ⟨fp, -, hOffer⟩ := List.mem_filterMap.mp hMem
    obtain ⟨hSrc, hUntried⟩ := c.offer_src hOffer
    rw [hSrc]
    exact hUntried

theorem choose_none {current : Option String} (h : c.choose current = none) (fp : String) : c.untried fp = [] := by
  obtain ⟨-, hCheapest⟩ := Option.or_eq_none_iff.mp h
  have hNone := List.argmin_eq_none.mp hCheapest
  by_cases hMem : fp ∈ c.pending.map Prod.fst
  · exact c.offer_eq_none.mp (List.filterMap_eq_nil_iff.mp hNone fp hMem)
  · exact c.untried_of_not_mem hMem

/-! ## Selection -/

/-- What a selection comes to. -/
inductive Selects (current : Option String) : Coordinator → Selected → Prop where
  | stopped (h : c.stopped = true) : Selects current c .retire
  | screens (h : settings.maxScreens ≤ c.screenMap.nodes.length) : Selects current (c.finish "max_screens") .retire
  | steps (h : settings.maxSteps ≤ c.steps) : Selects current (c.finish "max_steps") .retire
  | completed (hRuns : c.stopped = false) (hActive : c.active = 0) (hDrained : ∀ fp, c.untried fp = []) :
      Selects current (c.finish "completed") .retire
  | wait (hRuns : c.stopped = false) (hActive : c.active ≠ 0) (hDrained : ∀ fp, c.untried fp = []) :
      Selects current c .wait
  | work (o : Offer) (hRuns : c.stopped = false) (hScreens : c.screenMap.nodes.length < settings.maxScreens)
      (hSteps : c.steps < settings.maxSteps) (hUntried : c.untried o.src = o.action :: o.rest) :
      Selects current
        { c with pending := set c.pending o.src o.rest, steps := c.steps + 1, active := c.active + 1 }
        (.work ⟨o.src, o.action, c.path o.src, o.replayNeeded⟩)

theorem selects (current : Option String) :
    Selects settings c current (c.selectNextWork settings current).1 (c.selectNextWork settings current).2 := by
  rw [selectNextWork]
  split
  · rename_i hStopped
    exact .stopped hStopped
  rename_i hRuns
  have hRuns : c.stopped = false := by simpa using hRuns
  split
  · rename_i hScreens
    exact .screens hScreens
  rename_i hScreens
  split
  · rename_i hSteps
    exact .steps hSteps
  rename_i hSteps
  split
  · rename_i o hChoose
    exact .work o hRuns (by omega) (by omega) (c.choose_some hChoose)
  · rename_i hChoose
    split
    · rename_i hActive
      exact .completed hRuns hActive (c.choose_none hChoose)
    · rename_i hActive
      exact .wait hRuns hActive (c.choose_none hChoose)

/-! ## Publication -/

theorem claimOne_cases (fp : String) (state : List Action × Coordinator) (a : Action) :
    (∃ pruned, claimOne settings fp state a = (state.1, { state.2 with screenMap.pruned := pruned })) ∨
      ∃ claimed, claimOne settings fp state a = (state.1 ++ [a], { state.2 with claimed := claimed }) := by
  rw [claimOne]
  split
  · split
    · exact .inl ⟨_, rfl⟩
    · exact .inr ⟨_, rfl⟩
  · exact .inr ⟨_, rfl⟩

/-- A claim keeps some of the actions and writes to nothing but the claims and the pruned operations. -/
theorem claim_cases (fp : String) (actions : List Action) :
    (c.claim settings fp actions).1.Sublist actions ∧ ∃ claimed pruned,
      (c.claim settings fp actions).2 = { c with claimed := claimed, screenMap.pruned := pruned } := by
  have hFold : ∀ (actions kept : List Action) (c : Coordinator), ∃ claimed pruned more, more.Sublist actions ∧
      actions.foldl (claimOne settings fp) (kept, c) =
        (kept ++ more, { c with claimed := claimed, screenMap.pruned := pruned }) := by
    intro actions
    induction actions with
    | nil =>
      intro kept c
      exact ⟨c.claimed, c.screenMap.pruned, [], List.Sublist.refl [], by rw [List.append_nil]; rfl⟩
    | cons a actions ih =>
      intro kept c
      rw [List.foldl_cons]
      obtain ⟨pruned, hOne⟩ | ⟨claimed, hOne⟩ := claimOne_cases settings fp (kept, c) a
      · obtain ⟨claimed', pruned', more, hMore, hRest⟩ := ih kept { c with screenMap.pruned := pruned }
        exact ⟨claimed', pruned', more, hMore.cons a, by rw [hOne, hRest]⟩
      · obtain ⟨claimed', pruned', more, hMore, hRest⟩ := ih (kept ++ [a]) { c with claimed := claimed }
        refine ⟨claimed', pruned', a :: more, hMore.cons_cons a, ?_⟩
        rw [hOne, hRest, List.append_assoc, List.singleton_append]
  rw [claim]
  split
  · obtain ⟨claimed, pruned, more, hMore, hAll⟩ := hFold actions [] c
    rw [hAll, List.nil_append]
    exact ⟨hMore, claimed, pruned, rfl⟩
  · exact ⟨List.Sublist.refl actions, c.claimed, c.screenMap.pruned, rfl⟩

/-- The parts of the coordinator that the workers' safety is about. -/
structure Shape where
  nodes : List (String × Node)
  pathTo : List (String × List Action)
  pending : List (String × List Action)
  discovering : List String
  steps : Nat
  active : Int
  stopped : Bool

def shape : Shape :=
  ⟨c.screenMap.nodes, c.pathTo, c.pending, c.discovering, c.steps, c.active, c.stopped⟩

theorem shape_publish (node : Node) (actions : List Action) :
    (c.publish settings node actions).2.shape =
      { c.shape with nodes := set c.screenMap.nodes node.fingerprint node } := by
  obtain ⟨-, claimed, pruned, hClaim⟩ := claim_cases settings { c with
    screenMap.nodes := set c.screenMap.nodes node.fingerprint node
    screenMap.paths := set c.screenMap.paths node.fingerprint (c.path node.fingerprint) } node.fingerprint actions
  rw [publish, hClaim]
  rfl

theorem shape_finishDiscovery (node : Node) (actions : List Action) :
    (c.finishDiscovery settings node actions).1.shape = { c.shape with
      nodes := set c.screenMap.nodes node.fingerprint node
      pending := set c.pending node.fingerprint (c.finishDiscovery settings node actions).2
      discovering := c.discovering.erase node.fingerprint
      active := c.active - 1 } := by
  have hPublish := shape_publish settings c node actions
  simp only [shape, Shape.mk.injEq] at hPublish
  obtain ⟨hNodes, hPath, hPending, hDiscovering, hSteps, hActive, hStopped⟩ := hPublish
  simp only [finishDiscovery, emit, shape, hNodes, hPath, hPending, hDiscovering, hSteps, hActive, hStopped]

theorem recordEdge_cases (src : String) (action : Action) (dst : Fingerprint) (dismissed : List String)
    (path : List Action) :
    ((c.recordEdge settings src action dst dismissed path).2 = true ∧ c.known dst.value = false ∧
        dst.value ∉ c.discovering ∧ (c.recordEdge settings src action dst dismissed path).1.shape =
          { c.shape with discovering := dst.value :: c.discovering, pathTo := set c.pathTo dst.value path }) ∨
      (c.recordEdge settings src action dst dismissed path).2 = false ∧
        (c.recordEdge settings src action dst dismissed path).1.shape = { c.shape with active := c.active - 1 } := by
  rw [recordEdge]
  split
  · rename_i hNew
    rw [Bool.and_eq_true, Bool.not_eq_true', Bool.not_eq_true'] at hNew
    refine .inl ⟨rfl, hNew.1, ?_, rfl⟩
    simpa using hNew.2
  · exact .inr ⟨rfl, rfl⟩

end Coordinator

end Bajutsu.Crawl
