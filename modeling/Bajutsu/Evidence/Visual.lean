import Mathlib.Algebra.Order.Floor.Ring
import Mathlib.Data.Rat.Floor
import Mathlib.Tactic.FieldSimp
import Mathlib.Tactic.Linarith
import Mathlib.Tactic.Ring

/-!
# Visual comparison, pixel for pixel

`compare_images` masks the excluded regions in both images and, with the exact engine, counts the pixels whose difference
is not black once it is converted to grey.
-/

namespace Bajutsu.Evidence.Visual

structure Pixel where
  r : Fin 256
  g : Fin 256
  b : Fin 256
  a : Fin 256
  deriving DecidableEq

/-- An RGBA image: `pixel x y` is the one in column `x` and row `y`. -/
structure Image where
  width : Nat
  height : Nat
  pixel : Nat → Nat → Pixel

def positions (width height : Nat) : List (Nat × Nat) :=
  (List.range height).flatMap fun y => (List.range width).map fun x => (x, y)

/-- The buffer, a pixel an item. -/
def Image.tobytes (im : Image) : List Pixel := (positions im.width im.height).map fun p => im.pixel p.1 p.2

structure ExcludeRegion where
  x : ℚ
  y : ℚ
  w : ℚ
  h : ℚ

structure CompareResult where
  ok : Bool
  diffPct : ℚ
  reason : String := ""

inductive VisualError where
  | valueError (message : String)

/-- `int` of a float: towards zero. -/
def int (q : ℚ) : Int := if 0 ≤ q then ⌊q⌋ else ⌈q⌉

structure Box where
  left : Int
  upper : Int
  right : Int
  lower : Int

def ExcludeRegion.box (r : ExcludeRegion) : Box := ⟨int r.x, int r.y, int (r.x + r.w), int (r.y + r.h)⟩

def Box.covers (box : Box) (x y : Nat) : Bool := box.left ≤ x && x < box.right && box.upper ≤ y && y < box.lower

/-- `Image.new` of the size of the box, pasted at the box. -/
def Image.mask (im : Image) (box : Box) : Except VisualError Image :=
  if box.right < box.left ∨ box.lower < box.upper then .error (.valueError "Width and height must be >= 0")
  else .ok { im with pixel := fun x y => if box.covers x y then ⟨0, 0, 0, 0⟩ else im.pixel x y }

def maskBoth : List ExcludeRegion → Image × Image → Except VisualError (Image × Image)
  | [], ims => .ok ims
  | r :: rest, (actual, baseline) => do
    let actual ← actual.mask r.box
    let baseline ← baseline.mask r.box
    maskBoth rest (actual, baseline)

def absDiff (m n : Fin 256) : Nat := if m ≤ n then n - m else m - n

/-- What the conversion to grey adds up, before it drops sixteen bits. -/
def greyWeight (p q : Pixel) : Nat := 19595 * absDiff p.r q.r + 38470 * absDiff p.g q.g + 7471 * absDiff p.b q.b

/-- A pixel of `ImageChops.difference(..).convert("L")`. -/
def greyDiff (p q : Pixel) : Nat := (greyWeight p q + 32768) >>> 16

/-- The formats `:.2f` and of a size. -/
structure Builtins where
  fixed2 : ℚ → String
  size : Nat × Nat → String

variable (builtins : Builtins)

def verdict (diffCount total : Nat) (threshold : ℚ) : CompareResult :=
  if diffCount = 0 then ⟨true, 0, ""⟩
  else
    let diffPct : ℚ := diffCount / total * 100
    let ok : Bool := diffPct ≤ threshold
    ⟨ok, diffPct,
      if ok then "" else "visual diff " ++ builtins.fixed2 diffPct ++ "% exceeds threshold " ++
        builtins.fixed2 threshold ++ "%"⟩

def diffCount (actual baseline : Image) : Nat :=
  (positions actual.width actual.height).countP fun p => 0 < greyDiff (actual.pixel p.1 p.2) (baseline.pixel p.1 p.2)

def compareExact (actual baseline : Image) (threshold : ℚ) : CompareResult :=
  verdict builtins (diffCount actual baseline) (actual.width * actual.height) threshold

/-- `compare_images`; the perceptual engine is whatever it is. -/
def compareImages (comparePixelmatch : Image → Image → CompareResult) (actual baseline : Image) (engine : String)
    (threshold : ℚ) (exclude : Option (List ExcludeRegion)) : Except VisualError CompareResult :=
  if (actual.width, actual.height) ≠ (baseline.width, baseline.height) then
    .ok ⟨false, 100, "size mismatch: actual " ++ builtins.size (actual.width, actual.height) ++ " vs baseline " ++
      builtins.size (baseline.width, baseline.height)⟩
  else do
    let (actual, baseline) ← maskBoth (exclude.getD []) (actual, baseline)
    if actual.tobytes = baseline.tobytes then .ok ⟨true, 0, ""⟩
    else if engine = "pixelmatch" then .ok (comparePixelmatch actual baseline)
    else if engine = "exact" then .ok (compareExact builtins actual baseline threshold)
    else .error (.valueError ("unknown visual compare engine '" ++ engine ++ "': use 'exact' or 'pixelmatch'"))

/-! ## What the percentage stands for -/

def ExcludeRegion.Contains (r : ExcludeRegion) (x y : Nat) : Prop := r.x ≤ x ∧ x < r.x + r.w ∧ r.y ≤ y ∧ y < r.y + r.h

instance (r : ExcludeRegion) (x y : Nat) : Decidable (r.Contains x y) := inferInstanceAs (Decidable (_ ∧ _))

def Compared (exclude : List ExcludeRegion) (p : Nat × Nat) : Prop := ∀ r ∈ exclude, ¬r.Contains p.1 p.2

instance (exclude : List ExcludeRegion) (p : Nat × Nat) : Decidable (Compared exclude p) :=
  inferInstanceAs (Decidable (∀ r ∈ exclude, _))

def Changed (exclude : List ExcludeRegion) (actual baseline : Image) (p : Nat × Nat) : Prop :=
  Compared exclude p ∧ actual.pixel p.1 p.2 ≠ baseline.pixel p.1 p.2

instance (exclude : List ExcludeRegion) (actual baseline : Image) (p : Nat × Nat) :
    Decidable (Changed exclude actual baseline p) :=
  inferInstanceAs (Decidable (_ ∧ _))

/-- A region of whole non-negative coordinates inside an image. -/
def ExcludeRegion.Inside (r : ExcludeRegion) (im : Image) : Prop :=
  ∃ x y w h : Nat, r = ⟨x, y, w, h⟩ ∧ x + w ≤ im.width ∧ y + h ≤ im.height

/-- The percentage is of the changed pixels, and with threshold 0 only equal pixels pass. -/
def CountsChanged (comparePixelmatch : Image → Image → CompareResult) (actual baseline : Image) (threshold : ℚ)
    (exclude : List ExcludeRegion) : Prop :=
  ∃ result, compareImages builtins comparePixelmatch actual baseline "exact" threshold (some exclude) = .ok result ∧
    result.diffPct = 100 * ((positions actual.width actual.height).countP (Changed exclude actual baseline ·) : ℚ) /
      (actual.width * actual.height) ∧
    (threshold = 0 →
      (result.ok = true ↔ ∀ p ∈ positions actual.width actual.height, Compared exclude p →
        actual.pixel p.1 p.2 = baseline.pixel p.1 p.2))

/-- Each changed pixel weighs enough to be grey. -/
def Weighty (actual baseline : Image) (exclude : List ExcludeRegion) : Prop :=
  ∀ p ∈ positions actual.width actual.height, Changed exclude actual baseline p →
    32768 ≤ greyWeight (actual.pixel p.1 p.2) (baseline.pixel p.1 p.2)

section Masking

variable {im actual baseline : Image} {r : ExcludeRegion} {exclude : List ExcludeRegion}

theorem mem_positions {width height : Nat} {p : Nat × Nat} :
    p ∈ positions width height ↔ p.1 < width ∧ p.2 < height := by
  simp only [positions, List.mem_flatMap, List.mem_map, List.mem_range]
  constructor
  · rintro ⟨y, hy, x, hx, rfl⟩
    exact ⟨hx, hy⟩
  · rintro ⟨hx, hy⟩
    exact ⟨p.2, hy, p.1, hx, rfl⟩

theorem int_natCast (n : Nat) : int n = n := by
  rw [int, if_pos (Nat.cast_nonneg n)]
  exact Int.floor_natCast n

theorem covers_box (h : r.Inside im) (x y : Nat) : r.box.covers x y = true ↔ r.Contains x y := by
  obtain ⟨left, upper, w, h, rfl, -⟩ := h
  rw [ExcludeRegion.box, ← Nat.cast_add, ← Nat.cast_add, int_natCast, int_natCast, int_natCast, int_natCast]
  simp only [Box.covers, Bool.and_eq_true, decide_eq_true_eq, and_assoc, ExcludeRegion.Contains]
  norm_cast

/-- An image with its excluded pixels black and transparent. -/
def masked (exclude : List ExcludeRegion) (im : Image) : Image :=
  { im with pixel := fun x y => if Compared exclude (x, y) then im.pixel x y else ⟨0, 0, 0, 0⟩ }

theorem masked_nil (im : Image) : masked [] im = im := by
  have hPixel : ∀ x y, Compared [] (x, y) := fun _ _ _ hr => absurd hr List.not_mem_nil
  simp only [masked, hPixel, if_true]

theorem masked_cons (r : ExcludeRegion) (exclude : List ExcludeRegion) (im : Image) :
    masked (r :: exclude) im = masked exclude (masked [r] im) := by
  simp only [masked]
  congr 1
  funext x y
  have hCons : Compared (r :: exclude) (x, y) ↔ Compared exclude (x, y) ∧ Compared [r] (x, y) := by
    simp only [Compared, List.forall_mem_cons]
    simp [and_comm]
  by_cases hRest : Compared exclude (x, y)
  · simp [hCons, hRest]
  · simp [hCons, hRest]

theorem mask_inside (h : r.Inside im) : im.mask r.box = .ok (masked [r] im) := by
  have hCovers := covers_box h
  rw [Image.mask, if_neg ?_]
  · simp only [hCovers, masked, Compared, List.mem_singleton, forall_eq, ite_not]
  · obtain ⟨x, y, w, h, rfl, -⟩ := h
    rw [ExcludeRegion.box, ← Nat.cast_add, ← Nat.cast_add, int_natCast, int_natCast, int_natCast, int_natCast]
    dsimp only
    omega

theorem maskBoth_inside (hSize : (actual.width, actual.height) = (baseline.width, baseline.height))
    (h : ∀ r ∈ exclude, r.Inside actual) :
    maskBoth exclude (actual, baseline) = .ok (masked exclude actual, masked exclude baseline) := by
  induction exclude generalizing actual baseline with
  | nil => rw [masked_nil, masked_nil]; rfl
  | cons r rest ih =>
    obtain ⟨hWidth, hHeight⟩ := Prod.mk.inj hSize
    have hr := h r List.mem_cons_self
    have hr' : r.Inside baseline := by
      rw [ExcludeRegion.Inside, ← hWidth, ← hHeight]
      exact hr
    rw [maskBoth, mask_inside hr, mask_inside hr', masked_cons r rest actual, masked_cons r rest baseline]
    exact @ih (masked [r] actual) (masked [r] baseline) hSize fun r' hr' => h r' (List.mem_cons_of_mem r hr')

theorem masked_pixel_compared {p : Nat × Nat} (h : Compared exclude p) :
    (masked exclude im).pixel p.1 p.2 = im.pixel p.1 p.2 :=
  if_pos h

theorem masked_pixel_excluded {p : Nat × Nat} (h : ¬Compared exclude p) :
    (masked exclude im).pixel p.1 p.2 = ⟨0, 0, 0, 0⟩ :=
  if_neg h

end Masking

section Counting

theorem absDiff_self (n : Fin 256) : absDiff n n = 0 := by
  rw [absDiff, if_pos (Fin.le_refl n), Nat.sub_self]

theorem greyWeight_self (p : Pixel) : greyWeight p p = 0 := by
  simp [greyWeight, absDiff_self]

theorem greyDiff_pos {p q : Pixel} : 0 < greyDiff p q ↔ 32768 ≤ greyWeight p q := by
  rw [greyDiff, Nat.shiftRight_eq_div_pow]
  omega

/-- Two counts of one list agree exactly when nothing is counted only once. -/
theorem countP_eq_iff {α : Type} {p q : α → Bool} {xs : List α} (h : ∀ x ∈ xs, p x = true → q x = true) :
    xs.countP p = xs.countP q ↔ ∀ x ∈ xs, q x = true → p x = true := by
  induction xs with
  | nil => simp
  | cons x xs ih =>
    have hRest : ∀ y ∈ xs, p y = true → q y = true := fun y hy => h y (List.mem_cons_of_mem x hy)
    have hLe := List.countP_mono_left hRest
    have hx := h x List.mem_cons_self
    rw [List.forall_mem_cons, ← ih hRest, List.countP_cons, List.countP_cons]
    constructor
    · intro hEq
      by_cases hq : q x = true
      · by_cases hp : p x = true
        · rw [if_pos hp, if_pos hq] at hEq
          exact ⟨fun _ => hp, by omega⟩
        · rw [if_neg hp, if_pos hq] at hEq
          omega
      · rw [if_neg hq, if_neg fun hp => hq (hx hp)] at hEq
        exact ⟨fun hq' => absurd hq' hq, by omega⟩
    · rintro ⟨hHere, hEq⟩
      rw [hEq]
      congr 1
      exact if_congr ⟨hx, hHere⟩ rfl rfl

variable {actual baseline : Image} {exclude : List ExcludeRegion} {p : Nat × Nat}

theorem counted_iff : 0 < greyDiff ((masked exclude actual).pixel p.1 p.2) ((masked exclude baseline).pixel p.1 p.2) ↔
    Compared exclude p ∧ 32768 ≤ greyWeight (actual.pixel p.1 p.2) (baseline.pixel p.1 p.2) := by
  rw [greyDiff_pos]
  by_cases h : Compared exclude p
  · rw [masked_pixel_compared h, masked_pixel_compared h]
    exact ⟨fun hWeight => ⟨h, hWeight⟩, And.right⟩
  · rw [masked_pixel_excluded h, masked_pixel_excluded h, greyWeight_self]
    constructor
    · intro hWeight
      omega
    · exact fun hBoth => absurd hBoth.1 h

theorem changed_of_counted (h : Compared exclude p ∧ 32768 ≤ greyWeight (actual.pixel p.1 p.2) (baseline.pixel p.1 p.2)) :
    Changed exclude actual baseline p := by
  refine ⟨h.1, fun hEq => ?_⟩
  have hWeight := h.2
  rw [hEq, greyWeight_self] at hWeight
  omega

theorem diffCount_eq_iff :
    diffCount (masked exclude actual) (masked exclude baseline) =
        (positions actual.width actual.height).countP (Changed exclude actual baseline ·) ↔
      Weighty actual baseline exclude := by
  rw [diffCount]
  change (positions actual.width actual.height).countP _ = _ ↔ _
  rw [countP_eq_iff]
  · apply forall₂_congr
    intro p _
    rw [decide_eq_true_eq, decide_eq_true_eq, counted_iff]
    constructor
    · exact fun h hChanged => (h hChanged).2
    · exact fun h hChanged => ⟨hChanged.1, h hChanged⟩
  · intro p _ hp
    rw [decide_eq_true_eq, counted_iff] at hp
    exact decide_eq_true (changed_of_counted hp)

theorem verdict_diffPct (diffCount total : Nat) (threshold : ℚ) :
    (verdict builtins diffCount total threshold).diffPct = diffCount / total * 100 := by
  rw [verdict]
  split
  · rename_i hZero
    rw [hZero, Nat.cast_zero, zero_div, zero_mul]
  · rfl

theorem verdict_ok_zero {diffCount total : Nat} (hLe : diffCount ≤ total) :
    (verdict builtins diffCount total 0).ok = true ↔ diffCount = 0 := by
  rw [verdict]
  split
  · rename_i hZero
    simp [hZero]
  · rename_i hPos
    have hCount : (0 : ℚ) < diffCount := by
      exact_mod_cast Nat.pos_of_ne_zero hPos
    have hTotal : (0 : ℚ) < total := by
      exact_mod_cast (Nat.pos_of_ne_zero hPos).trans_le hLe
    have hPct : (0 : ℚ) < diffCount / total * 100 := mul_pos (div_pos hCount hTotal) (by norm_num)
    simp only [decide_eq_true_eq, hPos, iff_false, not_le]
    exact hPct

theorem length_positions (width height : Nat) : (positions width height).length = width * height := by
  simp [positions, List.length_flatMap, Nat.mul_comm]

theorem diffCount_le : diffCount actual baseline ≤ actual.width * actual.height := by
  rw [← length_positions]
  exact List.countP_le_length

theorem diffCount_self (h : actual.tobytes = baseline.tobytes)
    (hSize : (actual.width, actual.height) = (baseline.width, baseline.height)) : diffCount actual baseline = 0 := by
  obtain ⟨hWidth, hHeight⟩ := Prod.mk.inj hSize
  rw [diffCount, List.countP_eq_zero]
  intro p hp
  rw [Image.tobytes, Image.tobytes, ← hWidth, ← hHeight, List.map_inj_left] at h
  rw [h p hp, decide_eq_true_eq, greyDiff_pos, greyWeight_self]
  omega

theorem compareImages_exact (comparePixelmatch : Image → Image → CompareResult) (threshold : ℚ)
    (hSize : (actual.width, actual.height) = (baseline.width, baseline.height))
    (hInside : ∀ r ∈ exclude, r.Inside actual) :
    compareImages builtins comparePixelmatch actual baseline "exact" threshold (some exclude) =
      .ok (compareExact builtins (masked exclude actual) (masked exclude baseline) threshold) := by
  rw [compareImages, if_neg (by simpa using hSize), Option.getD_some, maskBoth_inside hSize hInside]
  change (if (masked exclude actual).tobytes = (masked exclude baseline).tobytes then _ else _) = _
  split
  · rename_i hEq
    have hSame : diffCount (masked exclude actual) (masked exclude baseline) = 0 := diffCount_self hEq hSize
    rw [compareExact, hSame, verdict, if_pos rfl]
  · rw [if_neg (by decide), if_pos rfl]

theorem compare_exact_iff (comparePixelmatch : Image → Image → CompareResult) (actual baseline : Image) (threshold : ℚ)
    (exclude : List ExcludeRegion) (hSize : (actual.width, actual.height) = (baseline.width, baseline.height))
    (hInside : ∀ r ∈ exclude, r.Inside actual) :
    CountsChanged builtins comparePixelmatch actual baseline threshold exclude ↔ Weighty actual baseline exclude := by
  rw [CountsChanged, compareImages_exact builtins comparePixelmatch threshold hSize hInside, ← diffCount_eq_iff]
  have hLe : diffCount (masked exclude actual) (masked exclude baseline) ≤ actual.width * actual.height := diffCount_le
  constructor
  · rintro ⟨result, hResult, hPct, -⟩
    obtain rfl := Except.ok.inj hResult
    rw [compareExact, verdict_diffPct] at hPct
    change (_ : ℚ) / ((actual.width * actual.height : Nat) : ℚ) * 100 = _ at hPct
    rcases Nat.eq_zero_or_pos (actual.width * actual.height) with hNone | hPos
    · have hChanged : (positions actual.width actual.height).countP (Changed exclude actual baseline ·) ≤ _ :=
        List.countP_le_length
      rw [length_positions] at hChanged
      omega
    · have hTotal : ((actual.width * actual.height : Nat) : ℚ) ≠ 0 := by
        exact_mod_cast hPos.ne'
      rw [← Nat.cast_mul, div_mul_eq_mul_div, div_left_inj' hTotal, mul_comm] at hPct
      have hCount := mul_left_cancel₀ (show (100 : ℚ) ≠ 0 by norm_num) hPct
      exact_mod_cast hCount
  · intro hEq
    refine ⟨_, rfl, ?_, ?_⟩
    · rw [compareExact, verdict_diffPct, hEq, div_mul_eq_mul_div, mul_comm, Nat.cast_mul]
      rfl
    · rintro rfl
      rw [compareExact]
      change (verdict builtins _ (actual.width * actual.height) 0).ok = true ↔ _
      rw [verdict_ok_zero builtins hLe, hEq, List.countP_eq_zero]
      apply forall₂_congr
      intro p _
      rw [decide_eq_true_eq, Changed, not_and, not_not]

/-- A row of two pixels, where only the reds differ. -/
def reds (first second : Fin 256) : Image := ⟨2, 1, fun x _ => ⟨if x = 0 then first else second, 0, 0, 255⟩⟩

/-- The first pixel is excluded, and a red step of two in the other is grey enough. -/
theorem compare_exact_reds :
    CountsChanged ⟨fun _ => "", fun _ => ""⟩ (fun _ _ => ⟨false, 0, ""⟩) (reds 9 2) (reds 0 0) 0 [⟨0, 0, 1, 1⟩] := by
  have hSize : ((reds 9 2).width, (reds 9 2).height) = ((reds 0 0).width, (reds 0 0).height) := rfl
  have hInside : ∀ r ∈ [(⟨0, 0, 1, 1⟩ : ExcludeRegion)], r.Inside (reds 9 2) := by
    intro r hr
    obtain rfl := List.mem_singleton.mp hr
    exact ⟨0, 0, 1, 1, by norm_num, by decide, by decide⟩
  refine (compare_exact_iff _ _ _ _ _ _ hSize hInside).mpr ?_
  intro p hp hChanged
  obtain ⟨hx, hy⟩ := mem_positions.mp hp
  obtain ⟨x, y⟩ := p
  obtain rfl : y = 0 := by
    have : (reds 9 2).height = 1 := rfl
    omega
  obtain rfl | rfl : x = 0 ∨ x = 1 := by
    have : (reds 9 2).width = 2 := rfl
    omega
  · exact absurd hChanged (by decide +kernel)
  · decide

/-- One blue pixel. -/
def blue (b : Fin 256) : Image := ⟨1, 1, fun _ _ => ⟨0, 0, b, 255⟩⟩

theorem compare_exact_blue : ¬∀ builtins comparePixelmatch actual baseline threshold exclude,
    (actual.width, actual.height) = (baseline.width, baseline.height) → (∀ r ∈ exclude, r.Inside actual) →
      CountsChanged builtins comparePixelmatch actual baseline threshold exclude := by
  intro h
  have hSize : ((blue 4).width, (blue 4).height) = ((blue 0).width, (blue 0).height) := rfl
  have hInside : ∀ r ∈ ([] : List ExcludeRegion), r.Inside (blue 4) := fun _ hr => absurd hr List.not_mem_nil
  obtain ⟨result, hResult, -, hOk⟩ := h ⟨fun _ => "", fun _ => ""⟩ (fun _ _ => ⟨false, 0, ""⟩) (blue 4) (blue 0) 0 []
    hSize hInside
  rw [compareImages_exact _ _ _ hSize hInside] at hResult
  obtain rfl := Except.ok.inj hResult
  have hEqual := (hOk rfl).mp (by decide +kernel) (0, 0) (by decide) fun _ hr => absurd hr List.not_mem_nil
  exact absurd hEqual (by decide)

end Counting

end Bajutsu.Evidence.Visual
