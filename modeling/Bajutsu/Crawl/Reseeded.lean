import Bajutsu.Crawl.Bootstrap

/-!
# What a continued crawl has to try

The reconstruction queues, for each screen of the plan that its recorded path still leads to, the candidates of
the screen that the plan lists. Of the saved map it changes the alerts and the stop reason.
-/

namespace Bajutsu.Crawl

open PyValue

section Reseeded

variable (settings : Settings) (rt : Runtime) (plan : List (String × List String)) (walk : String → Walked)

/-- What is queued for a screen. -/
def reseeded (fp : String) : List Action :=
  match walk fp with
  | .stale => []
  | .landed elements _ => if (fingerprint rt elements).value = fp then rederived settings rt plan fp elements else []

variable {settings rt plan walk}

theorem reseeded_of_drained {fp : String} (h : remaining plan fp = []) : reseeded settings rt plan walk fp = [] := by
  rw [reseeded]
  split
  · rfl
  · split
    · rw [rederived, h]
      exact List.filter_eq_nil_iff.mpr fun a _ => by simp
    · rfl

theorem untried_seeded (c : Coordinator) (fp fp' : String) (path : List Action) (ops : List Action) :
    Coordinator.untried { c with pathTo := set c.pathTo fp path, pending := set c.pending fp ops } fp' =
      if fp' = fp then ops else c.untried fp' := by
  change (get (set c.pending fp ops) fp').getD [] = _
  split
  · rename_i hSame
    rw [hSame, get_set_self]
    rfl
  · rename_i hOther
    rw [get_set_ne _ _ hOther]
    rfl

/-- A screen that is walked changes what there is to try on it, and no more of the map than its alerts. -/
theorem seedScreen_spec (c : Coordinator) (fp : String) :
    (∃ alerts, (seedScreen settings rt walk c fp).screenMap = { c.screenMap with alerts := alerts }) ∧
      (seedScreen settings rt walk c fp).stopped = c.stopped ∧
      (∀ fp', (seedScreen settings rt walk c fp).untried fp' =
        if fp' = fp ∧ reseeded settings rt c.screenMap.plan walk fp ≠ [] then
          reseeded settings rt c.screenMap.plan walk fp
        else c.untried fp') ∧
      (anyPending (seedScreen settings rt walk c fp) = true →
        anyPending c = true ∨ reseeded settings rt c.screenMap.plan walk fp ≠ []) := by
  have hSkip : reseeded settings rt c.screenMap.plan walk fp = [] → ∀ fp', c.untried fp' =
      if fp' = fp ∧ reseeded settings rt c.screenMap.plan walk fp ≠ [] then
        reseeded settings rt c.screenMap.plan walk fp
      else c.untried fp' := by
    intro hNone fp'
    rw [if_neg (fun h => h.2 hNone)]
  rw [seedScreen]
  split
  · rename_i hDrained
    exact ⟨⟨_, rfl⟩, rfl, hSkip (reseeded_of_drained hDrained), .inl⟩
  split
  · rename_i hWalk
    exact ⟨⟨_, rfl⟩, rfl, hSkip (by rw [reseeded, hWalk]), .inl⟩
  rename_i elements dismissed hWalk
  split
  · rename_i hElsewhere
    refine ⟨⟨_, rfl⟩, rfl, hSkip ?_, .inl⟩
    rw [reseeded, hWalk]
    exact if_neg hElsewhere
  rename_i hLands
  have hOps : reseeded settings rt c.screenMap.plan walk fp = rederived settings rt c.screenMap.plan fp elements := by
    rw [reseeded, hWalk]
    exact if_pos (not_not.mp hLands)
  generalize hAlerted : (if dismissed = [] then c else
    c.recordAlert settings ((get c.screenMap.paths fp).getD []) dismissed) = alerted
  have hAlerts : (∃ alerts, alerted.screenMap = { c.screenMap with alerts := alerts }) ∧
      alerted.stopped = c.stopped ∧ alerted.pending = c.pending := by
    rw [← hAlerted]
    split
    · exact ⟨⟨_, rfl⟩, rfl, rfl⟩
    · exact ⟨⟨_, rfl⟩, rfl, rfl⟩
  obtain ⟨hMap, hStopped, hPending⟩ := hAlerts
  have hUntried : ∀ fp', alerted.untried fp' = c.untried fp' := fun fp' => by
    rw [Coordinator.untried, hPending]
    rfl
  simp only [hAlerted]
  split
  · rename_i hNone
    refine ⟨hMap, hStopped, fun fp' => ?_, fun hPending' => .inl ?_⟩
    · rw [hUntried, ← hSkip (hOps.trans hNone)]
    · rw [anyPending, hPending] at hPending'
      exact hPending'
  · rename_i hSome
    refine ⟨hMap, hStopped, fun fp' => ?_, fun _ => .inr (hOps ▸ hSome)⟩
    rw [untried_seeded, hUntried, hOps]
    simp only [ne_eq, hSome, not_false_eq_true, and_true]

theorem seedScreens_spec (fps : List String) (c : Coordinator) :
    (∃ alerts, (fps.foldl (seedScreen settings rt walk) c).screenMap = { c.screenMap with alerts := alerts }) ∧
      (fps.foldl (seedScreen settings rt walk) c).stopped = c.stopped ∧
      (∀ fp, (fps.foldl (seedScreen settings rt walk) c).untried fp =
        if fp ∈ fps ∧ reseeded settings rt c.screenMap.plan walk fp ≠ [] then
          reseeded settings rt c.screenMap.plan walk fp
        else c.untried fp) ∧
      (anyPending (fps.foldl (seedScreen settings rt walk) c) = true →
        anyPending c = true ∨ ∃ fp, reseeded settings rt c.screenMap.plan walk fp ≠ []) := by
  induction fps generalizing c with
  | nil =>
    refine ⟨⟨_, rfl⟩, rfl, fun fp => ?_, .inl⟩
    rw [if_neg (fun h => List.not_mem_nil h.1)]
    rfl
  | cons first fps ih =>
    obtain ⟨⟨alerts, hMap⟩, hStopped, hUntried, hPending⟩ := @seedScreen_spec settings rt walk c first
    obtain ⟨⟨alerts', hMap'⟩, hStopped', hUntried', hPending'⟩ := ih (seedScreen settings rt walk c first)
    rw [List.foldl_cons]
    refine ⟨⟨alerts', ?_⟩, hStopped'.trans hStopped, fun fp => ?_, fun hLater => ?_⟩
    · rw [hMap', hMap]
    · rw [hUntried', hUntried, hMap]
      by_cases hSame : fp = first
      · subst hSame
        by_cases hSome : reseeded settings rt c.screenMap.plan walk fp = []
        · simp [hSome]
        · simp [hSome]
      · simp [hSame]
    · obtain hSome | hSome := hPending' hLater
      · exact (hPending hSome).imp_right fun hFirst => ⟨first, hFirst⟩
      · rw [hMap] at hSome
        exact .inr hSome

theorem untried_of_noPending {c : Coordinator} (h : anyPending c = false) (fp : String) : c.untried fp = [] := by
  rw [Coordinator.untried]
  cases hOps : get c.pending fp with
  | none => rfl
  | some ops =>
    have hNone := List.any_eq_false.mp h (fp, ops) (get_mem hOps)
    simpa using hNone

end Reseeded

section Reconstructed

variable (settings : Settings) (rt : Runtime) (walk : String → Walked) (base : ScreenMap)

/-- The coordinator after the reconstruction, where something was queued and where nothing was. -/
theorem reconstructFrontier_spec :
    (∀ fp, (reconstructFrontier settings rt walk base).untried fp = reseeded settings rt base.plan walk fp) ∧
      (reconstructFrontier settings rt walk base).stopped = false ∧
      ((∃ fp, reseeded settings rt base.plan walk fp ≠ []) ∧
          (reconstructFrontier settings rt walk base).screenMap.stopReason = "" ∨
        anyPending (reconstructFrontier settings rt walk base) = false ∧
          ((∃ alerts, (reconstructFrontier settings rt walk base).screenMap =
              { base with
                alerts := alerts
                stopReason := if base.stopReason ≠ "" then base.stopReason else "max_steps" }) ∨
            (∀ item ∈ base.plan, item.2 = []) ∧
              (reconstructFrontier settings rt walk base).screenMap.stopReason = "completed")) := by
  obtain ⟨⟨alerts, hMap⟩, hStopped, hUntried, hAny⟩ :=
    @seedScreens_spec settings rt walk (sorted (base.plan.map Prod.fst)) { screenMap := base }
  generalize hSeeded : (sorted (base.plan.map Prod.fst)).foldl (seedScreen settings rt walk) { screenMap := base } = c
    at hMap hStopped hUntried hAny
  have hQueued : ∀ fp, c.untried fp = reseeded settings rt base.plan walk fp := by
    intro fp
    rw [hUntried]
    split
    · rfl
    · rename_i hSkipped
      by_contra hSome
      refine hSkipped ⟨?_, fun hNone => hSome hNone.symm⟩
      -- A screen outside the plan has nothing left to try.
      rw [sorted, List.mem_insertionSort, ← get_isSome_iff]
      by_contra hAbsent
      refine hSome (Eq.symm (reseeded_of_drained ?_))
      rw [remaining, Option.not_isSome_iff_eq_none.mp hAbsent]
      rfl
  rw [reconstructFrontier, hSeeded]
  dsimp only
  split
  · rename_i hPending
    have hSome : ∃ fp, reseeded settings rt base.plan walk fp ≠ [] := (hAny hPending).resolve_left Bool.false_ne_true
    exact ⟨hQueued, hStopped, .inl ⟨hSome, rfl⟩⟩
  · rename_i hPending
    have hPending : anyPending c = false := by simpa using hPending
    split
    · refine ⟨hQueued, hStopped, .inr ⟨hPending, .inl ⟨alerts, ?_⟩⟩⟩
      rw [hMap]
    · rename_i hDrained
      refine ⟨hQueued, hStopped, .inr ⟨hPending, .inr ⟨fun item hMem => ?_, rfl⟩⟩⟩
      by_contra hSome
      exact hDrained (List.any_eq_true.mpr ⟨item, hMem, decide_eq_true hSome⟩)

end Reconstructed

end Bajutsu.Crawl
