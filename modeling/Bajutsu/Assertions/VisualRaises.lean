import Bajutsu.Assertions.EvaluateRaises

/-!
# Where visual assertions raise

An image is opened, cropped, masked or saved that cannot be, a selector's pattern does not compile, or the engine is
neither of the two.
-/

namespace Bajutsu.Assertions

open Drivers Raising
open Evidence.Visual (ExcludeRegion)

/-- `Image.new` refuses a negative size. -/
def Negative (r : ExcludeRegion) : Prop := r.box.right < r.box.left ∨ r.box.lower < r.box.upper

section Images

variable {builtins : Evidence.Visual.Builtins} {comparePixelmatch : Evidence.Visual.Image → Evidence.Visual.Image → Evidence.Visual.CompareResult}
variable {actual baseline : Evidence.Visual.Image} {engine : String} {threshold : ℚ} {regions : List ExcludeRegion}

theorem raises_maskBoth : Raises (Evidence.Visual.maskBoth regions (actual, baseline)) ↔ ∃ r ∈ regions, Negative r := by
  induction regions generalizing actual baseline with
  | nil => exact iff_of_false (not_raises_ok _) nofun
  | cons r rest ih =>
    rw [Evidence.Visual.maskBoth, List.exists_mem_cons_iff]
    by_cases hNegative : Negative r
    · refine iff_of_true (raises_bind.mpr (.inl ⟨.valueError "Width and height must be >= 0", ?_⟩)) (.inl hNegative)
      exact if_pos hNegative
    · have hMask (im : Evidence.Visual.Image) : ∃ masked, im.mask r.box = .ok masked := ⟨_, if_neg hNegative⟩
      obtain ⟨masked, hMasked⟩ := hMask actual
      obtain ⟨masked', hMasked'⟩ := hMask baseline
      rw [or_iff_right hNegative, hMasked, hMasked']
      exact ih

theorem raises_compareImages (hSize : (actual.width, actual.height) = (baseline.width, baseline.height)) :
    Raises (Evidence.Visual.compareImages builtins comparePixelmatch actual baseline engine threshold (some regions)) ↔
      (∃ r ∈ regions, Negative r) ∨ ∃ masked masked', Evidence.Visual.maskBoth regions (actual, baseline) = .ok (masked, masked') ∧
        masked.tobytes ≠ masked'.tobytes ∧ engine ≠ "pixelmatch" ∧ engine ≠ "exact" := by
  rw [Evidence.Visual.compareImages, if_neg (not_not_intro hSize), Option.getD_some, raises_bind, raises_maskBoth]
  apply or_congr_right
  constructor
  · rintro ⟨⟨masked, masked'⟩, hMasked, hRest⟩
    refine ⟨masked, masked', hMasked, ?_⟩
    dsimp only at hRest
    split at hRest
    · exact absurd hRest (not_raises_ok _)
    rename_i hDiffer
    split at hRest
    · exact absurd hRest (not_raises_ok _)
    rename_i hPixelmatch
    split at hRest
    · exact absurd hRest (not_raises_ok _)
    rename_i hExact
    exact ⟨hDiffer, hPixelmatch, hExact⟩
  · rintro ⟨masked, masked', hMasked, hDiffer, hPixelmatch, hExact⟩
    refine ⟨(masked, masked'), hMasked, ?_⟩
    dsimp only
    rw [if_neg hDiffer, if_neg hPixelmatch, if_neg hExact]
    exact raises_error _

end Images

section Visual

variable (env : Environment) (ctx : VisualContext) (elements : List (Element ℚ))

/-! ## The conditions -/

inductive PrepareAborts (a : VisualMatch) : Prop
  | screenshot {pillow : Pillow} {points : ℚ × ℚ} (hFrames : needsFrames a = true) (hPillow : env.pillow = some pillow)
    (hPoints : screenPoints ctx elements = some points) (hShot : ctx.screenshot = none)
  | selector {pillow : Pillow} {scale : ℚ × ℚ} {sel : Selector} (hPillow : env.pillow = some pillow)
    (hScale : visualScale ctx elements = .ok (some scale)) (hElement : a.element = some sel)
    (hRefused : SelectorRefused env elements sel)
  | crop {pillow : Pillow} {scale : ℚ × ℚ} {sel : Selector} {el : Element ℚ} (hPillow : env.pillow = some pillow)
    (hScale : visualScale ctx elements = .ok (some scale)) (hElement : a.element = some sel)
    (hFound : resolveUnique env.fnmatchcase env.compile elements sel = .ok el)
    (hArea : 0 < (frameToPx el.frame scale).w ∧ 0 < (frameToPx el.frame scale).h)
    (hCrop : (ctx.screenshot.bind fun file => pillow.crop file (frameToPx el.frame scale).box a.baseline) = none)

/-- A mask's pattern does not compile, and the masks before it are resolved. -/
def MasksAbort (exclude : List Region) : Prop :=
  ∃ before sel after, exclude = before ++ .selector sel :: after ∧
    (∀ earlier, .selector earlier ∈ before → ∃ found, resolveMask env elements earlier = .ok (.ok found)) ∧
      SelectorRefused env elements sel

inductive CompareAborts (pillow : Pillow) (a : VisualMatch) (engine : String) (actual baseline : Option ImageFile)
    (masks : List (Option ExcludeRegion)) : Prop
  | unopened (hPixels : actual.bind (·.pixels) = none ∨ baseline.bind (·.pixels) = none)
  | mask {im im' : Evidence.Visual.Image} (hActual : actual.bind (·.pixels) = some im)
    (hBaseline : baseline.bind (·.pixels) = some im') (hSize : (im.width, im.height) = (im'.width, im'.height))
    (hMask : none ∈ masks ∨ ∃ r, some r ∈ masks ∧ Negative r)
  | engine {im im' masked masked' : Evidence.Visual.Image} {regions : List ExcludeRegion}
    (hActual : actual.bind (·.pixels) = some im) (hBaseline : baseline.bind (·.pixels) = some im')
    (hSize : (im.width, im.height) = (im'.width, im'.height)) (hRegions : masks = regions.map some)
    (hMasked : Evidence.Visual.maskBoth regions (im, im') = .ok (masked, masked')) (hDiffer : masked.tobytes ≠ masked'.tobytes)
    (hEngine : engine ≠ "pixelmatch" ∧ engine ≠ "exact")
  | save {im im' : Evidence.Visual.Image} {regions : List ExcludeRegion} {result : Evidence.Visual.CompareResult}
    (hActual : actual.bind (·.pixels) = some im) (hBaseline : baseline.bind (·.pixels) = some im')
    (hSize : (im.width, im.height) = (im'.width, im'.height)) (hRegions : masks = regions.map some)
    (hResult : Evidence.Visual.compareImages env.visual (env.comparePixelmatch a) im im' engine a.threshold (some regions) =
      .ok result)
    (hDiffer : result.diffPct ≠ 0) (hSaves : pillow.saves a.baseline = false)

/-- The engine is the exact one, and an option of the other is set. -/
def Mistuned (a : VisualMatch) : Prop := a.compare.getD ctx.defaultCompare = "exact" ∧ a.tuned = true

inductive VisualAborts (a : VisualMatch) : Prop
  | prepare (hPrepare : PrepareAborts env ctx elements a)
  | baseline {prepared : Prepared} (hPrepared : prepareVisualComparison env ctx elements a = .ok (.ok prepared))
    (hRefused : ctx.baselines a.baseline = .refused)
  | masks {prepared : Prepared} {baseline : Option ImageFile} {pillow : Pillow}
    (hPrepared : prepareVisualComparison env ctx elements a = .ok (.ok prepared))
    (hBaseline : ctx.baselines a.baseline = .file baseline) (hPillow : env.pillow = some pillow)
    (hTuned : ¬Mistuned ctx a) (hMasks : MasksAbort env elements a.exclude)
  | compare {prepared : Prepared} {baseline : Option ImageFile} {pillow : Pillow} {masks : List (Option ExcludeRegion)}
    (hPrepared : prepareVisualComparison env ctx elements a = .ok (.ok prepared))
    (hBaseline : ctx.baselines a.baseline = .file baseline) (hPillow : env.pillow = some pillow)
    (hTuned : ¬Mistuned ctx a) (hMasks : resolveMasks env elements prepared a.exclude = .ok (.ok masks))
    (hCompare : CompareAborts env pillow a (a.compare.getD ctx.defaultCompare) prepared.compareActual baseline masks)

/-! ## The steps -/

variable {env : Environment} {ctx : VisualContext} {elements : List (Element ℚ)}

theorem raises_visualScale : Raises (visualScale ctx elements) ↔
    ctx.screenshot = none ∧ ∃ points, screenPoints ctx elements = some points := by
  rw [visualScale.eq_def]
  cases screenPoints ctx elements with
  | none => exact iff_of_false (not_raises_ok _) nofun
  | some points =>
    dsimp only
    cases ctx.screenshot with
    | none => exact iff_of_true (raises_error _) ⟨rfl, points, rfl⟩
    | some file => exact iff_of_false (not_raises_ok _) nofun

theorem raises_cropTo {pillow : Pillow} {a : VisualMatch} {sel : Selector} {scale : ℚ × ℚ} :
    Raises (cropTo env ctx elements pillow a sel scale) ↔ SelectorRefused env elements sel ∨
      ∃ el, resolveUnique env.fnmatchcase env.compile elements sel = .ok el ∧
        (0 < (frameToPx el.frame scale).w ∧ 0 < (frameToPx el.frame scale).h) ∧
          (ctx.screenshot.bind fun file => pillow.crop file (frameToPx el.frame scale).box a.baseline) = none := by
  rw [cropTo, raises_bind, raises_resolveOne]
  apply or_congr_right
  constructor
  · rintro ⟨found, hFound, hRest⟩
    cases found with
    | error reason => exact absurd hRest (not_raises_pure _)
    | ok el =>
      refine ⟨el, resolveOne_ok.mp hFound, ?_⟩
      dsimp only at hRest
      split at hRest
      · exact absurd hRest (not_raises_pure _)
      rename_i hArea
      split at hRest
      · rename_i hCrop
        exact ⟨by simpa using hArea, hCrop⟩
      · exact absurd hRest (not_raises_pure _)
  · rintro ⟨el, hFound, hArea, hCrop⟩
    refine ⟨.ok el, resolveOne_ok.mpr hFound, ?_⟩
    dsimp only
    rw [if_neg (by simpa using hArea), hCrop]
    exact raises_error _

theorem raises_prepare {a : VisualMatch} :
    Raises (prepareVisualComparison env ctx elements a) ↔ PrepareAborts env ctx elements a := by
  rw [prepareVisualComparison]
  constructor
  · intro h
    split at h
    · exact absurd h (not_raises_ok _)
    rename_i hFrames
    split at h
    · exact absurd h (not_raises_ok _)
    rename_i pillow hPillow
    obtain hScale | ⟨scale, hScale, h⟩ := raises_bind.mp h
    · obtain ⟨hShot, points, hPoints⟩ := raises_visualScale.mp hScale
      exact .screenshot (by simpa using hFrames) hPillow hPoints hShot
    cases scale with
    | none => exact absurd h (not_raises_pure _)
    | some scale =>
      dsimp only at h
      split at h
      · exact absurd h (not_raises_pure _)
      rename_i sel hElement
      obtain hRefused | ⟨el, hFound, hArea, hCrop⟩ := raises_cropTo.mp h
      · exact .selector hPillow hScale hElement hRefused
      · exact .crop hPillow hScale hElement hFound hArea hCrop
  · intro h
    have hCropped {pillow : Pillow} {scale : ℚ × ℚ} {sel : Selector} (hPillow : env.pillow = some pillow)
        (hScale : visualScale ctx elements = .ok (some scale)) (hElement : a.element = some sel)
        (hCrop : Raises (cropTo env ctx elements pillow a sel scale)) :
        Raises (prepareVisualComparison env ctx elements a) := by
      have hFrames : needsFrames a = true := by simp [needsFrames, hElement]
      rw [prepareVisualComparison, if_neg (by simp [hFrames]), hPillow]
      refine raises_bind.mpr (.inr ⟨some scale, hScale, ?_⟩)
      simp only [hElement]
      exact hCrop
    rw [← prepareVisualComparison]
    cases h with
    | screenshot hFrames hPillow hPoints hShot =>
      rw [prepareVisualComparison, if_neg (by simp [hFrames]), hPillow]
      exact raises_bind.mpr (.inl (raises_visualScale.mpr ⟨hShot, _, hPoints⟩))
    | selector hPillow hScale hElement hRefused =>
      exact hCropped hPillow hScale hElement (raises_cropTo.mpr (.inl hRefused))
    | crop hPillow hScale hElement hFound hArea hCrop =>
      exact hCropped hPillow hScale hElement (raises_cropTo.mpr (.inr ⟨_, hFound, hArea, hCrop⟩))

theorem raises_resolveMask {sel : Selector} :
    Raises (resolveMask env elements sel) ↔ SelectorRefused env elements sel := by
  rw [SelectorRefused, ← resolveUnique_pattern_iff, resolveMask]
  cases resolveUnique env.fnmatchcase env.compile elements sel with
  | ok el => exact iff_of_false (not_raises_ok _) (by rintro ⟨_, ⟨⟩, _⟩)
  | error e =>
    dsimp only
    split
    · rename_i hClass
      refine iff_of_false (not_raises_ok _) ?_
      rintro ⟨e', hError, hPattern⟩
      cases hError
      cases hClass.symm.trans hPattern
    · rename_i hClass
      refine iff_of_false (not_raises_ok _) ?_
      rintro ⟨e', hError, hPattern⟩
      cases hError
      cases hClass.symm.trans hPattern
    · rename_i hClass
      exact iff_of_true (raises_error _) ⟨e, rfl, hClass⟩

theorem masksAbort_cons {region : Region} {rest : List Region} : MasksAbort env elements (region :: rest) ↔
    (∃ sel, region = .selector sel ∧ SelectorRefused env elements sel) ∨
      (∀ sel, region = .selector sel → ∃ found, resolveMask env elements sel = .ok (.ok found)) ∧
        MasksAbort env elements rest := by
  constructor
  · rintro ⟨before, sel, after, hEq, hBefore, hRefused⟩
    cases before with
    | nil =>
      cases hEq
      exact .inl ⟨sel, rfl, hRefused⟩
    | cons first before =>
      cases hEq
      refine .inr ⟨?_, before, sel, after, rfl, fun earlier hMem => hBefore earlier (List.mem_cons_of_mem _ hMem), hRefused⟩
      rintro earlier rfl
      exact hBefore earlier List.mem_cons_self
  · rintro (⟨sel, rfl, hRefused⟩ | ⟨hFirst, before, sel, after, rfl, hBefore, hRefused⟩)
    · exact ⟨[], sel, rest, rfl, nofun, hRefused⟩
    · refine ⟨region :: before, sel, after, rfl, ?_, hRefused⟩
      intro earlier hMem
      obtain hHere | hRest := List.mem_cons.mp hMem
      · exact hFirst earlier hHere.symm
      · exact hBefore earlier hRest

theorem raises_resolveMasks {prepared : Prepared} {exclude : List Region} :
    Raises (resolveMasks env elements prepared exclude) ↔ MasksAbort env elements exclude := by
  induction exclude with
  | nil =>
    refine iff_of_false (not_raises_ok _) ?_
    rintro ⟨before, sel, after, hEq, -⟩
    simp at hEq
  | cons region rest ih =>
    rw [masksAbort_cons, ← ih]
    cases region with
    | rectangle rectangle =>
      rw [resolveMasks, raises_bind_ok (fun _ => not_raises_pure _)]
      simp
    | selector sel =>
      rw [resolveMasks, raises_bind, raises_resolveMask]
      simp only [Region.selector.injEq, exists_eq_left', forall_eq']
      apply or_congr_right
      constructor
      · rintro ⟨found, hFound, hRest⟩
        match found with
        | .error reason => exact absurd hRest (not_raises_pure _)
        | .ok none => exact ⟨⟨none, hFound⟩, hRest⟩
        | .ok (some el) => exact ⟨⟨some el, hFound⟩, (raises_bind_ok fun _ => not_raises_pure _).mp hRest⟩
      · rintro ⟨⟨found, hFound⟩, hRest⟩
        refine ⟨.ok found, hFound, ?_⟩
        cases found with
        | none => exact hRest
        | some el => exact (raises_bind_ok fun _ => not_raises_pure _).mpr hRest

theorem mapM_id_none {masks : List (Option ExcludeRegion)} : masks.mapM id = none ↔ none ∈ masks := by
  induction masks with
  | nil => simp
  | cons mask masks ih =>
    rw [List.mapM_cons, List.mem_cons]
    cases mask with
    | none => exact iff_of_true rfl (.inl rfl)
    | some r =>
      cases hRest : masks.mapM id with
      | none => exact iff_of_true rfl (.inr (ih.mp hRest))
      | some regions =>
        refine iff_of_false nofun ?_
        rintro (h | h)
        · cases h
        · cases hRest.symm.trans (ih.mpr h)

theorem mapM_id_some {masks : List (Option ExcludeRegion)} {regions : List ExcludeRegion} :
    masks.mapM id = some regions ↔ masks = regions.map some := by
  induction masks generalizing regions with
  | nil => cases regions with
    | nil => simp
    | cons r regions => simp
  | cons mask masks ih =>
    rw [List.mapM_cons]
    constructor
    · intro h
      obtain ⟨r, hMask, h⟩ := Option.bind_eq_some_iff.mp h
      obtain ⟨rest, hRest, h⟩ := Option.bind_eq_some_iff.mp h
      cases h
      rw [List.map_cons, ← ih.mp hRest]
      exact congrArg (· :: masks) hMask
    · intro h
      cases regions with
      | nil => cases h
      | cons r regions =>
        cases h
        rw [ih.mpr rfl]
        rfl

theorem raises_compareFiles {pillow : Pillow} {a : VisualMatch} {engine : String} {actual baseline : Option ImageFile}
    {masks : List (Option ExcludeRegion)} : Raises (compareFiles env pillow a engine actual baseline masks) ↔
      CompareAborts env pillow a engine actual baseline masks := by
  rw [compareFiles.eq_def]
  cases hActual : actual.bind (·.pixels) with
  | none => exact iff_of_true (raises_error _) (.unopened (.inl hActual))
  | some im =>
    cases hBaseline : baseline.bind (·.pixels) with
    | none => exact iff_of_true (raises_error _) (.unopened (.inr hBaseline))
    | some im' =>
      dsimp only
      constructor
      · intro h
        split at h
        case isFalse => exact absurd h (not_raises_ok _)
        rename_i hSize
        split at h
        · rename_i hNone
          exact .mask hActual hBaseline hSize (.inl (mapM_id_none.mp hNone))
        rename_i regions hRegions
        have hMasks := mapM_id_some.mp hRegions
        split at h
        · rename_i e hError
          obtain ⟨r, hMem, hNegative⟩ | ⟨masked, masked', hMasked, hDiffer, hEngine⟩ :=
            (raises_compareImages hSize).mp ⟨e, hError⟩
          · exact .mask hActual hBaseline hSize (.inr ⟨r, hMasks ▸ List.mem_map_of_mem hMem, hNegative⟩)
          · exact .engine hActual hBaseline hSize hMasks hMasked hDiffer hEngine
        · rename_i result hResult
          split at h
          · rename_i hSave
            simp only [Bool.and_eq_true, decide_eq_true_eq, Bool.not_eq_true'] at hSave
            exact .save hActual hBaseline hSize hMasks hResult hSave.1 hSave.2
          · exact absurd h (not_raises_ok _)
      · intro h
        cases h with
        | unopened hPixels =>
          obtain hNone | hNone := hPixels
          · cases hActual.symm.trans hNone
          · cases hBaseline.symm.trans hNone
        | mask hIm hIm' hSize hMask =>
          cases hActual.symm.trans hIm
          cases hBaseline.symm.trans hIm'
          rw [if_pos hSize]
          cases hRegions : masks.mapM id with
          | none => exact raises_error _
          | some regions =>
            have hMasks := mapM_id_some.mp hRegions
            obtain hNone | ⟨r, hMem, hNegative⟩ := hMask
            · cases hRegions.symm.trans (mapM_id_none.mpr hNone)
            · rw [hMasks, List.mem_map_of_injective (Option.some_injective _)] at hMem
              obtain ⟨e, hError⟩ := (@raises_compareImages env.visual (env.comparePixelmatch a) im im' engine a.threshold
                regions hSize).mpr (.inl ⟨r, hMem, hNegative⟩)
              simp only [hError]
              exact raises_error _
        | @engine _ _ masked masked' regions hIm hIm' hSize hMasks hMasked hDiffer hEngine =>
          cases hActual.symm.trans hIm
          cases hBaseline.symm.trans hIm'
          obtain ⟨e, hError⟩ := (@raises_compareImages env.visual (env.comparePixelmatch a) im im' engine a.threshold
            regions hSize).mpr (.inr ⟨masked, masked', hMasked, hDiffer, hEngine⟩)
          rw [if_pos hSize, mapM_id_some.mpr hMasks]
          simp only [hError]
          exact raises_error _
        | save hIm hIm' hSize hMasks hResult hDiffer hSaves =>
          cases hActual.symm.trans hIm
          cases hBaseline.symm.trans hIm'
          rw [if_pos hSize, mapM_id_some.mpr hMasks]
          simp only [hResult]
          rw [if_pos (by simp [hDiffer, hSaves])]
          exact raises_error _

theorem raises_evalVisual {a : VisualMatch} :
    Raises (evalVisual env elements (some ctx) a) ↔ VisualAborts env ctx elements a := by
  rw [evalVisual.eq_def]
  dsimp only
  rw [raises_bind, raises_prepare]
  constructor
  · rintro (hPrepare | ⟨prepared, hPrepared, h⟩)
    · exact .prepare hPrepare
    cases prepared with
    | error reason => exact absurd h (not_raises_pure _)
    | ok prepared =>
      dsimp only at h
      split at h
      · rename_i hRefused
        exact .baseline hPrepared hRefused
      · exact absurd h (not_raises_pure _)
      · exact absurd h (not_raises_pure _)
      rename_i baseline pillow hBaseline hPillow
      split at h
      · exact absurd h (not_raises_pure _)
      rename_i hTuned
      have hTuned : ¬Mistuned ctx a := by simpa [Mistuned] using hTuned
      obtain hMasks | ⟨masks, hMasks, h⟩ := raises_bind.mp h
      · exact .masks hPrepared hBaseline hPillow hTuned (raises_resolveMasks.mp hMasks)
      cases masks with
      | error reason => exact absurd h (not_raises_pure _)
      | ok masks =>
        have hCompare := (raises_bind_ok fun _ => not_raises_pure _).mp h
        exact .compare hPrepared hBaseline hPillow hTuned hMasks (raises_compareFiles.mp hCompare)
  · intro h
    cases h with
    | prepare hPrepare => exact .inl hPrepare
    | baseline hPrepared hRefused =>
      refine .inr ⟨_, hPrepared, ?_⟩
      simp only [hRefused]
      exact raises_error _
    | masks hPrepared hBaseline hPillow hTuned hMasks =>
      refine .inr ⟨_, hPrepared, ?_⟩
      simp only [hBaseline, hPillow]
      rw [if_neg (by simpa [Mistuned] using hTuned)]
      exact raises_bind.mpr (.inl (raises_resolveMasks.mpr hMasks))
    | compare hPrepared hBaseline hPillow hTuned hMasks hCompare =>
      refine .inr ⟨_, hPrepared, ?_⟩
      simp only [hBaseline, hPillow]
      rw [if_neg (by simpa [Mistuned] using hTuned)]
      refine raises_bind.mpr (.inr ⟨_, hMasks, ?_⟩)
      exact (raises_bind_ok fun _ => not_raises_pure _).mpr (raises_compareFiles.mpr hCompare)

end Visual

end Bajutsu.Assertions
