import Mathlib.Data.Prod.Lex
import Bajutsu.Lib.PyText

/-!
# Versions and version ranges

A target's `os`, `apiLevel` and `browser.version` conditions are ranges in npm's grammar. Reading one
desugars every comparator to plain ones and intersects each side of a `||` union into one interval.
Components are natural numbers of any size; a text's digits go through `int`, with its limit.
-/

namespace Bajutsu.Devices

open PyText

/-- The `ValueError`s of the module; `int` is the one `int()` raises past its digit limit. -/
inductive VersionError where
  | notAVersion (text : String)
  | prerelease (text pre : String)
  | unreadable (text token : String)
  | int (digits : Nat)
  | openRange
  deriving DecidableEq

def VersionError.message (repr : String → String) : VersionError → String
  | notAVersion text => "not a version: " ++ repr text
  | prerelease text pre =>
    "version range " ++ repr text ++ " names a prerelease (" ++ repr pre ++
      "); prerelease tags are not used"
  | unreadable text token => "invalid version range " ++ repr text ++ ": cannot read " ++ repr token
  | int digits =>
    "Exceeds the limit (" ++ toString maxStrDigits ++ " digits) for integer string conversion: " ++
      "value has " ++ toString digits ++ " digits; use sys.set_int_max_str_digits() to increase the " ++
      "limit"
  | openRange => "an open range covers no fixed set of major versions"

def int (digits : List Char) : Except VersionError Nat :=
  match intOf digits with
  | none => .error (.int digits.length)
  | some n => .ok n

@[ext] structure Version where
  major : Nat
  minor : Nat := 0
  patch : Nat := 0
  deriving DecidableEq

namespace Version

instance : LinearOrder Version :=
  LinearOrder.lift' (fun v : Version => toLex (v.major, toLex (v.minor, v.patch))) fun v w h => by
    simpa [Version.ext_iff] using h

theorem lt_iff {v w : Version} : v < w ↔
    v.major < w.major ∨ v.major = w.major ∧
      (v.minor < w.minor ∨ v.minor = w.minor ∧ v.patch < w.patch) := by
  change toLex (v.major, toLex (v.minor, v.patch)) < toLex (w.major, toLex (w.minor, w.patch)) ↔ _
  rw [Prod.Lex.toLex_lt_toLex, Prod.Lex.toLex_lt_toLex]

theorem le_iff {v w : Version} : v ≤ w ↔
    v.major < w.major ∨ v.major = w.major ∧
      (v.minor < w.minor ∨ v.minor = w.minor ∧ v.patch ≤ w.patch) := by
  change toLex (v.major, toLex (v.minor, v.patch)) ≤ toLex (w.major, toLex (w.minor, w.patch)) ↔ _
  rw [Prod.Lex.toLex_le_toLex, Prod.Lex.toLex_le_toLex]

end Version

/-! ## An observed version -/

/-- `\d+` at the head of a text. -/
def digitsAt (cs : List Char) : Option (List Char × List Char) :=
  if cs.takeWhile isDigit = [] then none else some (cs.takeWhile isDigit, cs.dropWhile isDigit)

/-- `(?:\.(\d+))?` at the head of a text. -/
def dotDigits : List Char → Option (List Char) × List Char
  | '.' :: cs =>
    match digitsAt cs with
    | some (digits, rest) => (some digits, rest)
    | none => (none, '.' :: cs)
  | cs => (none, cs)

def dropV : List Char → List Char
  | 'v' :: cs => cs
  | cs => cs

/-- `int(g) if g is not None else 0`. -/
def intOrZero : Option (List Char) → Except VersionError Nat
  | none => .ok 0
  | some digits => int digits

def Version.parse (text : String) : Except VersionError Version :=
  match digitsAt (dropV (text.toList.dropWhile isSpace)) with
  | none => .error (.notAVersion text)
  | some (major, rest) => do
    let (minor, rest) := dotDigits rest
    let (patch, _) := dotDigits rest
    let major ← int major
    let minor ← intOrZero minor
    let patch ← intOrZero patch
    pure ⟨major, minor, patch⟩

/-! ## Intervals -/

inductive Op where
  | lt
  | le
  | gt
  | ge
  | eq
  deriving DecidableEq

def Op.Holds : Op → Version → Version → Prop
  | .lt, v, w => v < w
  | .le, v, w => v ≤ w
  | .gt, v, w => w < v
  | .ge, v, w => w ≤ v
  | .eq, v, w => v = w

structure Bound where
  version : Version
  inclusive : Bool
  deriving DecidableEq

structure VersionRange where
  lower : Option Bound
  upper : Option Bound
  empty : Bool := false
  deriving DecidableEq

def VersionRange.bounded (range : VersionRange) : Bool :=
  range.empty || (range.lower.isSome && range.upper.isSome)

def outsideLower (version : Version) : Option Bound → Bool
  | none => false
  | some lo => version < lo.version ∨ (version = lo.version ∧ !lo.inclusive)

def outsideUpper (version : Version) : Option Bound → Bool
  | none => false
  | some hi => hi.version < version ∨ (version = hi.version ∧ !hi.inclusive)

def VersionRange.contains (range : VersionRange) (version : Version) : Bool :=
  if range.empty then false
  else if outsideLower version range.lower then false
  else if outsideUpper version range.upper then false
  else true

/-- The majors a bounded range covers, ascending. -/
def VersionRange.majors (range : VersionRange) : Except VersionError (List Nat) :=
  if range.empty then .ok []
  else
    match range.lower, range.upper with
    | some lo, some hi =>
      let first := lo.version.major
      -- One past the last major: `M.0.0` itself excluded leaves nothing of major `M`.
      let stop :=
        if !hi.inclusive && hi.version = ⟨hi.version.major, 0, 0⟩ then hi.version.major
        else hi.version.major + 1
      .ok (List.range' first (stop - first))
    | _, _ => .error .openRange

def raiseLower (lower : Option Bound) (cand : Bound) : Bound :=
  match lower with
  | none => cand
  | some lo =>
    if lo.version < cand.version ∨ (cand.version = lo.version ∧ lo.inclusive ∧ !cand.inclusive) then cand
    else lo

def lowerUpper (upper : Option Bound) (cand : Bound) : Bound :=
  match upper with
  | none => cand
  | some hi =>
    if cand.version < hi.version ∨ (cand.version = hi.version ∧ !cand.inclusive ∧ hi.inclusive) then cand
    else hi

def intersectStep (bounds : Option Bound × Option Bound) (comparator : Op × Version) :
    Option Bound × Option Bound :=
  let (lower, upper) := bounds
  let (op, v) := comparator
  (if op = .gt ∨ op = .ge ∨ op = .eq then some (raiseLower lower ⟨v, op ≠ .gt⟩) else lower,
    if op = .lt ∨ op = .le ∨ op = .eq then some (lowerUpper upper ⟨v, op ≠ .lt⟩) else upper)

/-- Nothing lies between two bounds; versions are triples, so `>a.b.c` starts at `a.b.(c+1)`. -/
def emptyBetween (lo hi : Bound) : Bool :=
  let least : Version :=
    if lo.inclusive then lo.version
    else ⟨lo.version.major, lo.version.minor, lo.version.patch + 1⟩
  hi.version < least ∨ (least = hi.version ∧ !hi.inclusive)

def intersect (comparators : List (Op × Version)) : VersionRange :=
  let (lower, upper) := comparators.foldl intersectStep (none, none)
  let empty :=
    match lower, upper with
    | some lo, some hi => emptyBetween lo hi
    | _, _ => false
  { lower := lower, upper := upper, empty := empty }

/-! ## An interval denotes the conjunction of its comparators -/

def Above (v : Version) (lower : Option Bound) : Prop := outsideLower v lower = false

def Below (v : Version) (upper : Option Bound) : Prop := outsideUpper v upper = false

@[simp] theorem above_none (v : Version) : Above v none := rfl

@[simp] theorem below_none (v : Version) : Below v none := rfl

theorem above_some {v : Version} {lo : Bound} :
    Above v (some lo) ↔ if lo.inclusive then lo.version ≤ v else lo.version < v := by
  cases hInclusive : lo.inclusive with
  | false =>
    simp only [Above, outsideLower, hInclusive]
    rcases lt_trichotomy v lo.version with h | h | h
    · simp [h, h.not_gt]
    · simp [h]
    · simp [h, h.not_gt, h.ne']
  | true => simp [Above, outsideLower, hInclusive]

theorem below_some {v : Version} {hi : Bound} :
    Below v (some hi) ↔ if hi.inclusive then v ≤ hi.version else v < hi.version := by
  cases hInclusive : hi.inclusive with
  | false =>
    simp only [Below, outsideUpper, hInclusive]
    rcases lt_trichotomy v hi.version with h | h | h
    · simp [h, h.not_gt, h.ne]
    · simp [h]
    · simp [h, h.not_gt]
  | true => simp [Below, outsideUpper, hInclusive]

theorem contains_iff {range : VersionRange} {v : Version} :
    range.contains v = true ↔ range.empty = false ∧ Above v range.lower ∧ Below v range.upper := by
  simp [VersionRange.contains, Above, Below]

theorem above_of_lt {v : Version} {lo hi : Bound} (hLt : lo.version < hi.version)
    (h : Above v (some hi)) : Above v (some lo) := by
  have hAbove : hi.version ≤ v := by
    rw [above_some] at h
    split at h
    · exact h
    · exact h.le
  rw [above_some]
  split
  · exact (hLt.trans_le hAbove).le
  · exact hLt.trans_le hAbove

theorem below_of_lt {v : Version} {lo hi : Bound} (hLt : lo.version < hi.version)
    (h : Below v (some lo)) : Below v (some hi) := by
  have hBelow : v ≤ lo.version := by
    rw [below_some] at h
    split at h
    · exact h
    · exact h.le
  rw [below_some]
  split
  · exact (hBelow.trans_lt hLt).le
  · exact hBelow.trans_lt hLt

theorem above_raiseLower {v : Version} {lower : Option Bound} {cand : Bound} :
    Above v (some (raiseLower lower cand)) ↔ Above v lower ∧ Above v (some cand) := by
  cases lower with
  | none => simp [raiseLower]
  | some lo =>
    rw [raiseLower]
    rcases lt_trichotomy lo.version cand.version with h | h | h
    · simpa [h] using above_of_lt (v := v) h
    · cases hLo : lo.inclusive <;> cases hCand : cand.inclusive <;>
        simp +contextual [above_some, hLo, hCand, h, le_of_lt]
    · simpa [h.not_gt, h.ne] using above_of_lt (v := v) h

theorem below_lowerUpper {v : Version} {upper : Option Bound} {cand : Bound} :
    Below v (some (lowerUpper upper cand)) ↔ Below v upper ∧ Below v (some cand) := by
  cases upper with
  | none => simp [lowerUpper]
  | some hi =>
    rw [lowerUpper]
    rcases lt_trichotomy cand.version hi.version with h | h | h
    · simpa [h] using below_of_lt (v := v) h
    · cases hHi : hi.inclusive <;> cases hCand : cand.inclusive <;>
        simp +contextual [below_some, hHi, hCand, h, le_of_lt]
    · simpa [h.not_gt, h.ne'] using below_of_lt (v := v) h

def Within (v : Version) (bounds : Option Bound × Option Bound) : Prop :=
  Above v bounds.1 ∧ Below v bounds.2

theorem within_intersectStep {v : Version} {bounds : Option Bound × Option Bound}
    {comparator : Op × Version} :
    Within v (intersectStep bounds comparator) ↔ Within v bounds ∧ comparator.1.Holds v comparator.2 := by
  obtain ⟨lower, upper⟩ := bounds
  obtain ⟨op, w⟩ := comparator
  have hLt : Below v (some ⟨w, false⟩) ↔ v < w := by simp [below_some]
  have hLe : Below v (some ⟨w, true⟩) ↔ v ≤ w := by simp [below_some]
  have hGt : Above v (some ⟨w, false⟩) ↔ w < v := by simp [above_some]
  have hGe : Above v (some ⟨w, true⟩) ↔ w ≤ v := by simp [above_some]
  cases op with
  | lt => simp [Within, intersectStep, below_lowerUpper, hLt, Op.Holds, and_assoc]
  | le => simp [Within, intersectStep, below_lowerUpper, hLe, Op.Holds, and_assoc]
  | gt => simp [Within, intersectStep, above_raiseLower, hGt, Op.Holds, and_right_comm]
  | ge => simp [Within, intersectStep, above_raiseLower, hGe, Op.Holds, and_right_comm]
  | eq =>
    simp only [Within, intersectStep, above_raiseLower, below_lowerUpper, hGe, hLe, Op.Holds,
      reduceCtorEq, or_true, if_true, ne_eq, not_false_eq_true, decide_true]
    rw [and_and_and_comm, le_antisymm_iff, and_comm (a := w ≤ v)]

theorem within_foldl {v : Version} (comparators : List (Op × Version))
    (bounds : Option Bound × Option Bound) :
    Within v (comparators.foldl intersectStep bounds) ↔
      Within v bounds ∧ ∀ c ∈ comparators, c.1.Holds v c.2 := by
  induction comparators generalizing bounds with
  | nil => simp
  | cons comparator comparators ih =>
    rw [List.foldl_cons, ih, within_intersectStep, List.forall_mem_cons, and_assoc]

theorem not_within_of_emptyBetween {v : Version} {lo hi : Bound} (h : emptyBetween lo hi = true) :
    ¬Within v (some lo, some hi) := by
  rintro ⟨hAbove, hBelow⟩
  rw [above_some] at hAbove
  rw [below_some] at hBelow
  rw [emptyBetween] at h
  cases hLo : lo.inclusive <;> cases hHi : hi.inclusive <;>
    simp only [hLo, hHi, Version.lt_iff, Version.le_iff, Version.ext_iff, Bool.false_eq_true,
      if_true, if_false, decide_eq_true_eq, Bool.not_false, Bool.not_true, and_true, and_false,
      or_false] at h hAbove hBelow <;>
    omega

theorem contains_intersect {v : Version} {comparators : List (Op × Version)} :
    (intersect comparators).contains v = true ↔ ∀ c ∈ comparators, c.1.Holds v c.2 := by
  have hFold := within_foldl (v := v) comparators (none, none)
  rw [contains_iff, intersect]
  generalize comparators.foldl intersectStep (none, none) = bounds at hFold
  match bounds with
  | (none, upper) => simpa [Within] using hFold
  | (some lo, none) => simpa [Within] using hFold
  | (some lo, some hi) =>
    cases hBetween : emptyBetween lo hi with
    | true =>
      have hNot := not_within_of_emptyBetween (v := v) hBetween
      rw [hFold] at hNot
      simpa [Within, hBetween] using hNot
    | false => simpa [Within, hBetween] using hFold

end Bajutsu.Devices
