import Bajutsu.Assertions.EvaluateKinds

/-!
# Visual assertions

The screenshot is cropped to the element an assertion is scoped to, the baseline is looked for, the excluded regions are
resolved, and the two images are compared. An image that cannot be opened, cropped, masked or saved raises.
-/

namespace Bajutsu.Assertions

open Drivers
open Evidence.Visual (ExcludeRegion CompareResult)

/-- What is compared, and the frame data that later steps use. -/
structure Prepared where
  compareActual : Option ImageFile
  crop : Option ExcludeRegion
  scale : Option (ℚ × ℚ)

section Visual

variable (env : Environment) (ctx : VisualContext) (elements : List (Element ℚ))

/-- Python's `round`: to the nearest, and of two to the even one. -/
def round (q : ℚ) : Int :=
  if q - ⌊q⌋ < 1 / 2 then ⌊q⌋
  else if 1 / 2 < q - ⌊q⌋ then ⌊q⌋ + 1
  else if ⌊q⌋ % 2 = 0 then ⌊q⌋ else ⌊q⌋ + 1

/-- The size of the screen in points, where it is known. -/
def screenPoints : Option (ℚ × ℚ) :=
  let (sw, sh) := ctx.viewport.getD (0, 0)
  let (sw, sh) := if sw ≤ 0 ∨ sh ≤ 0 then screenSizeFromElements elements else (sw, sh)
  if sw ≤ 0 ∨ sh ≤ 0 then none else some (sw, sh)

def visualScale : Except Failure (Option (ℚ × ℚ)) :=
  match screenPoints ctx elements with
  | none => .ok none
  | some (sw, sh) =>
    match ctx.screenshot with
    | none => .error (.unreadable "screenshot")
    | some file => .ok (some (file.size.1 / sw, file.size.2 / sh))

def frameToPx (frame : Frame ℚ) (scale : ℚ × ℚ) : ExcludeRegion :=
  ⟨round (frame.1 * scale.1), round (frame.2.1 * scale.2), round (frame.2.2.1 * scale.1), round (frame.2.2.2 * scale.2)⟩

/-- No element is no mask; several are a reason to fail. -/
def resolveMask (sel : Selector) : Except Failure (Except String (Option (Element ℚ))) :=
  match resolveUnique env.fnmatchcase env.compile elements sel with
  | .ok el => .ok (.ok (some el))
  | .error error =>
    match error.exceptionClass with
    | .elementNotFound => .ok (.ok none)
    | .ambiguousSelector => .ok (.error (error.message env.selRepr))
    | .patternError => .error (uncaught env error)

def shift (region : ExcludeRegion) (crop : Option ExcludeRegion) : ExcludeRegion :=
  match crop with
  | none => region
  | some crop => { region with x := region.x - crop.x, y := region.y - crop.y }

def needsFrames (a : VisualMatch) : Bool :=
  a.element.isSome || a.exclude.any fun | .selector _ => true | .rectangle _ => false

/-- The crop to an element's frame. -/
def cropTo (pillow : Pillow) (a : VisualMatch) (sel : Selector) (scale : ℚ × ℚ) :
    Except Failure (Except String Prepared) := do
  match ← resolveOne env elements sel with
  | .error reason => return .error ("element " ++ reason)
  | .ok el =>
    let crop := frameToPx el.frame scale
    if crop.w ≤ 0 ∨ crop.h ≤ 0 then return .error ("element has an empty frame: " ++ env.selStr sel)
    else
      match ctx.screenshot.bind fun file => pillow.crop file crop.box a.baseline with
      | none => .error (.unreadable a.baseline)
      | some cropped => return .ok ⟨some cropped, some crop, some scale⟩

def prepareVisualComparison (a : VisualMatch) : Except Failure (Except String Prepared) :=
  if !needsFrames a then .ok (.ok ⟨ctx.screenshot, none, none⟩)
  else
    match env.pillow with
    | none => .ok (.error "visual assertions need the 'visual' extra (Pillow)")
    | some pillow => do
      match ← visualScale ctx elements with
      | none => return .error "cannot resolve selectors: no elements on screen"
      | some scale =>
        match a.element with
        | none => return .ok ⟨ctx.screenshot, none, some scale⟩
        | some sel => cropTo env ctx elements pillow a sel scale

/-- The masks in the coordinates of what is compared. -/
def resolveMasks (prepared : Prepared) : List Region → Except Failure (Except String (List (Option ExcludeRegion)))
  | [] => .ok (.ok [])
  | .rectangle rectangle :: rest => do
    return (← resolveMasks prepared rest).map ((rectangle.map (shift · prepared.crop)) :: ·)
  | .selector sel :: rest => do
    match ← resolveMask env elements sel with
    | .error reason => return .error ("exclude selector " ++ reason)
    | .ok none => resolveMasks prepared rest
    | .ok (some el) =>
      let mask := (prepared.scale.map (frameToPx el.frame)).map (shift · prepared.crop)
      return (← resolveMasks prepared rest).map (mask :: ·)

/-- `compare_images`, and the image of the differences that it saves. -/
def compareFiles (pillow : Pillow) (a : VisualMatch) (engine : String) (actual baseline : Option ImageFile)
    (masks : List (Option ExcludeRegion)) : Except Failure CompareResult :=
  match actual.bind (·.pixels), baseline.bind (·.pixels) with
  | some actual, some baseline =>
    if (actual.width, actual.height) = (baseline.width, baseline.height) then
      match masks.mapM id with
      | none => .error (.unreadable a.baseline)
      | some regions =>
        match Evidence.Visual.compareImages env.visual (env.comparePixelmatch a) actual baseline engine a.threshold
          (some regions) with
        | .error _ => .error (.unreadable a.baseline)
        | .ok result =>
          if result.diffPct ≠ 0 && !pillow.saves a.baseline then .error (.unreadable a.baseline) else .ok result
    else .ok ⟨false, 100, "size mismatch: actual " ++ env.visual.size (actual.width, actual.height) ++ " vs baseline " ++
      env.visual.size (baseline.width, baseline.height)⟩
  | _, _ => .error (.unreadable a.baseline)

def evalVisual (ctx : Option VisualContext) (a : VisualMatch) : Except Failure AssertionResult :=
  let failed (reason : String) : AssertionResult := ⟨false, "visual", "visual ≈ " ++ a.baseline, reason⟩
  match ctx with
  | none => .ok (failed "no visual context provided")
  | some ctx => do
    match ← prepareVisualComparison env ctx elements a with
    | .error reason => return failed reason
    | .ok prepared =>
      match ctx.baselines a.baseline, env.pillow with
      | .refused, _ => .error (.unreadable a.baseline)
      | .missing, _ => return failed ("baseline not found: " ++ a.baseline)
      | .file _, none => return failed "visual assertions need the 'visual' extra (Pillow)"
      | .file baseline, some pillow =>
        let engine := a.compare.getD ctx.defaultCompare
        if engine = "exact" && a.tuned then
          return failed ("colorTolerance/antialiasing are set but the resolved engine is 'exact' " ++
            "(set compare: pixelmatch or the target's visualCompare)")
        else
          match ← resolveMasks env elements prepared a.exclude with
          | .error reason => return failed reason
          | .ok masks =>
            let result ← compareFiles env pillow a engine prepared.compareActual baseline masks
            return ⟨result.ok, "visual", "visual ≈ " ++ a.baseline, result.reason⟩

end Visual

/-! ## The block -/

section Block

variable (env : Environment) (elements : List (Element ℚ)) (exchanges : List NetworkExchange) (ctx : EvalContext)

def traitNotEnabled : String := "notEnabled"

def traitSelected : String := "selected"

/-- The evaluators by their kinds. -/
def evalOther : OtherKind → Except Failure AssertionResult
  | .exists sel negate => evalExists env elements sel negate
  | .value m => evalText env elements "value" Element.value m
  | .label m => evalText env elements "label" Element.label m
  | .count m => evalCount env elements m
  | .enabled sel => evalState env elements "enabled" (fun traits => traitNotEnabled ∉ traits) sel
  | .disabled sel => evalState env elements "disabled" (fun traits => traitNotEnabled ∈ traits) sel
  | .selected sel => evalState env elements "selected" (fun traits => traitSelected ∈ traits) sel
  | .event m => evalEvent env exchanges m
  | .responseSchema m => evalResponseSchema env exchanges m ctx.schema
  | .visual m => evalVisual env elements ctx.visual m
  | .clipboard m => evalClipboard env ctx.clipboard m
  | .attribute m => evalAttribute env (ctx.attributes (env.selKey m.sel, m.name)) m
  | .golden path => evalGolden env elements path ctx.golden

/-- `evaluate_one` of any kind. -/
def evaluateKind (a : Assertion OtherKind) : Except Failure AssertionResult :=
  evaluateOne env.toRuntime (evalOther env elements exchanges ctx) exchanges a

/-- `evaluate` of a block of any kinds. -/
def evaluateBlock (assertions : List (Assertion OtherKind)) : Except Failure (List AssertionResult) :=
  evaluate env.toRuntime (evalOther env elements exchanges ctx) assertions exchanges

end Block

end Bajutsu.Assertions
