import Bajutsu.Lib.PyText
import Bajutsu.Scenarios.Interp
import Mathlib.Data.List.Induction

/-!
# The path of an extracted field

An `extractBody` entry names a value of the response by object keys and array indexes: `data.items[0].id`. Tokens in the
path are replaced before it is read, each by a value that can only be a part of one segment.
-/

namespace Bajutsu.Orchestrator.Http

open PyText PyValue
open Scenarios (Piece)

/-! ## `_parse_path` -/

inductive PathSeg where
  | key (name : List Char)
  | index (n : Nat)
  deriving DecidableEq

/-- `[^.\[\]]`. -/
def isKeyChar (c : Char) : Bool := c ≠ '.' && c ≠ '[' && c ≠ ']'

/-- `[0-9]`. -/
def isIndexDigit (c : Char) : Bool := '0' ≤ c && c ≤ '9'

inductive PathError where
  | empty
  | unterminated
  | index (digits : List Char)
  | unexpected (c : Char) (position : Nat)
  | emptyKey
  /-- The `ValueError` of `int()` past its digit limit. -/
  | int (digits : Nat)

/-- The opening key carries no dot, every later one does. -/
def keyStart (i : Nat) (c : Char) (rest : List Char) : Option (List Char) :=
  if i = 0 then some (c :: rest) else if c = '.' then some rest else none

/-- The loop from a position on. Every round takes a character off the text, so the length of the text is enough fuel. -/
def segmentsFrom : Nat → Nat → List Char → Except PathError (List PathSeg)
  | _, _, [] => .ok []
  | 0, _, _ :: _ => .ok []
  | fuel + 1, i, c :: rest =>
    if c = '[' then
      match rest.takeWhile (· ≠ ']'), rest.dropWhile (· ≠ ']') with
      | _, [] => .error .unterminated
      | digits, _ :: after =>
        if digits = [] ∨ digits.all isIndexDigit = false then .error (.index digits)
        else
          match intOf digits with
          | none => .error (.int digits.length)
          | some n => (segmentsFrom fuel (i + digits.length + 2) after).map (.index n :: ·)
    else
      match keyStart i c rest with
      | none => .error (.unexpected c i)
      | some text =>
        if text.takeWhile isKeyChar = [] then .error .emptyKey
        else
          (segmentsFrom fuel (i + (c :: rest).length - (text.dropWhile isKeyChar).length) (text.dropWhile isKeyChar)).map
            (.key (text.takeWhile isKeyChar) :: ·)

def parsePath (path : List Char) : Except PathError (List PathSeg) :=
  if path = [] then .error .empty else segmentsFrom path.length 0 path

/-! ## The grammar -/

/-- A segment as it is written: an index may have leading zeros. -/
inductive Written where
  | key (name : List Char)
  | index (digits : List Char)

namespace Written

def text : Written → List Char
  | key name => '.' :: name
  | index digits => '[' :: digits ++ [']']

/-- The first segment of a path. -/
def opening : Written → List Char
  | key name => name
  | index digits => '[' :: digits ++ [']']

def seg : Written → PathSeg
  | key name => .key name
  | index digits => .index (natOf digits)

def Valid : Written → Prop
  | key name => name ≠ [] ∧ ∀ c ∈ name, isKeyChar c = true
  | index digits => digits ≠ [] ∧ ∀ c ∈ digits, isIndexDigit c = true

/-- `int()` takes the digits. -/
def Short : Written → Prop
  | key _ => True
  | index digits => digits.length ≤ maxStrDigits

end Written

/-- A path of these segments. -/
def pathText : List Written → List Char
  | [] => []
  | w :: rest => w.opening ++ rest.flatMap Written.text

/-- Object keys and array indexes, at least one. -/
def Grammar (path : List Char) (segments : List Written) : Prop :=
  segments ≠ [] ∧ (∀ w ∈ segments, w.Valid) ∧ path = pathText segments

def PathSeg.written : PathSeg → Written
  | .key name => .key name
  | .index n => .index (decimal n)

def printPath (segments : List PathSeg) : List Char := pathText (segments.map PathSeg.written)

/-! ## What is parsed -/

theorem takeWhile_append_stop {α : Type} {p : α → Bool} {front rest : List α} (hFront : ∀ c ∈ front, p c = true)
    (hRest : ∀ c ∈ rest.head?, p c = false) :
    (front ++ rest).takeWhile p = front ∧ (front ++ rest).dropWhile p = rest := by
  induction front with
  | nil =>
    cases rest with
    | nil => exact ⟨rfl, rfl⟩
    | cons c rest =>
      have hc := hRest c rfl
      simp [hc]
  | cons c front ih =>
    obtain ⟨hc, hFront⟩ := List.forall_mem_cons.mp hFront
    obtain ⟨hTake, hDrop⟩ := ih hFront
    simp [hc, hTake, hDrop]

theorem isIndexDigit_ne {c : Char} (h : isIndexDigit c = true) : c ≠ ']' := by
  rintro rfl
  exact absurd h (by decide)

/-- What may follow a segment: the end, a dot or a bracket. -/
def Delimited (text : List Char) : Prop := ∀ c ∈ text.head?, c = '[' ∨ c = '.'

theorem Delimited.not_key {text : List Char} (h : Delimited text) : ∀ c ∈ text.head?, isKeyChar c = false := by
  intro c hc
  rcases h c hc with rfl | rfl <;> decide

theorem delimited_written {segments : List Written} {tail : List Char} (hTail : Delimited tail) :
    Delimited (segments.flatMap Written.text ++ tail) := by
  cases segments with
  | nil => exact hTail
  | cons w rest =>
    intro c hc
    cases w with
    | key name =>
      obtain rfl : '.' = c := by simpa [Written.text] using hc
      exact .inr rfl
    | index digits =>
      obtain rfl : '[' = c := by simpa [Written.text] using hc
      exact .inl rfl

theorem takeWhile_digits {digits after : List Char} (hDigits : ∀ c ∈ digits, isIndexDigit c = true) :
    (digits ++ ']' :: after).takeWhile (· ≠ ']') = digits ∧ (digits ++ ']' :: after).dropWhile (· ≠ ']') = ']' :: after := by
  apply takeWhile_append_stop
  · intro c hc
    exact decide_eq_true (isIndexDigit_ne (hDigits c hc))
  · intro c hc
    obtain rfl : ']' = c := by simpa using hc
    decide

theorem segmentsFrom_index {fuel i : Nat} {digits after : List Char} (hValid : (Written.index digits).Valid) :
    segmentsFrom (fuel + 1) i ('[' :: (digits ++ ']' :: after)) =
      match intOf digits with
      | none => .error (.int digits.length)
      | some n => (segmentsFrom fuel (i + digits.length + 2) after).map (.index n :: ·) := by
  obtain ⟨hNe, hDigits⟩ := hValid
  obtain ⟨hTake, hDrop⟩ : (digits ++ ']' :: after).takeWhile (· ≠ ']') = digits ∧
      (digits ++ ']' :: after).dropWhile (· ≠ ']') = ']' :: after := takeWhile_digits hDigits
  have hAll : digits.all isIndexDigit = true := List.all_eq_true.mpr hDigits
  have hGood : ¬ (digits = [] ∨ digits.all isIndexDigit = false) := by
    rw [hAll]
    simp [hNe]
  rw [segmentsFrom, if_pos rfl]
  simp only [hTake, hDrop, if_neg hGood]

theorem segmentsFrom_key {fuel i : Nat} {c : Char} {rest name after : List Char} (hc : c ≠ '[')
    (hStart : keyStart i c rest = some (name ++ after)) (hValid : (Written.key name).Valid) (hAfter : Delimited after) :
    segmentsFrom (fuel + 1) i (c :: rest) =
      (segmentsFrom fuel (i + (c :: rest).length - after.length) after).map (.key name :: ·) := by
  obtain ⟨hNe, hName⟩ := hValid
  obtain ⟨hTake, hDrop⟩ := takeWhile_append_stop hName hAfter.not_key
  rw [segmentsFrom, if_neg hc, hStart]
  simp only [hTake, hDrop, if_neg hNe]

/-- A segment at a position: the first one of a path is its opening. -/
def lead (i : Nat) (w : Written) : List Char := if i = 0 then w.opening else w.text

def written (i : Nat) : List Written → List Char
  | [] => []
  | w :: rest => lead i w ++ rest.flatMap Written.text

theorem lead_pos {i : Nat} {w : Written} (hValid : w.Valid) : 0 < (lead i w).length := by
  rw [lead]
  cases w with
  | key name =>
    split
    · exact List.length_pos_iff.mpr hValid.1
    · exact Nat.succ_pos _
  | index digits => split <;> exact Nat.succ_pos _

theorem written_later {i : Nat} (hi : 0 < i) (segments : List Written) :
    written i segments = segments.flatMap Written.text := by
  cases segments with
  | nil => rfl
  | cons w rest =>
    rw [written, lead, if_neg (by omega)]
    rfl

theorem written_zero (segments : List Written) : written 0 segments = pathText segments := by
  cases segments <;> rfl

theorem segmentsFrom_lead {fuel i : Nat} {w : Written} {after : List Char} (hValid : w.Valid) (hShort : w.Short)
    (hAfter : Delimited after) :
    ∃ j, 0 < j ∧ segmentsFrom (fuel + 1) i (lead i w ++ after) = (segmentsFrom fuel j after).map (w.seg :: ·) := by
  cases w with
  | index digits =>
    refine ⟨i + digits.length + 2, by omega, ?_⟩
    have hLead : lead i (.index digits) ++ after = '[' :: (digits ++ ']' :: after) := by
      simp [lead, Written.opening, Written.text]
    have hInt : intOf digits = some (natOf digits) := if_pos hShort
    rw [hLead, segmentsFrom_index hValid, hInt]
    rfl
  | key name =>
    obtain ⟨c, name, rfl⟩ := List.exists_cons_of_ne_nil hValid.1
    have hc : c ≠ '[' := by
      rintro rfl
      exact absurd (hValid.2 _ List.mem_cons_self) (by decide)
    by_cases hi : i = 0
    · have hStart : keyStart i c (name ++ after) = some (c :: name ++ after) := by rw [keyStart, if_pos hi]; rfl
      have hLead : lead i (.key (c :: name)) ++ after = c :: (name ++ after) := by
        rw [lead, if_pos hi]
        rfl
      refine ⟨i + (c :: (name ++ after)).length - after.length, ?_, ?_⟩
      · rw [List.length_cons, List.length_append]
        omega
      · rw [hLead, segmentsFrom_key hc hStart hValid hAfter]
        rfl
    · have hStart : keyStart i '.' (c :: name ++ after) = some (c :: name ++ after) := by
        rw [keyStart, if_neg hi, if_pos rfl]
      have hLead : lead i (.key (c :: name)) ++ after = '.' :: (c :: name ++ after) := by
        rw [lead, if_neg hi]
        rfl
      refine ⟨i + ('.' :: (c :: name ++ after)).length - after.length, ?_, ?_⟩
      · rw [List.length_cons, List.length_append]
        omega
      · rw [hLead, segmentsFrom_key (by decide) hStart hValid hAfter]
        rfl

/-- What a round can do: take a segment, meet an index that `int()` refuses, or find the path malformed. -/
theorem segmentsFrom_cases (fuel i : Nat) (c : Char) (rest : List Char) :
    (∃ w after j, w.Valid ∧ w.Short ∧ c :: rest = lead i w ++ after ∧ 0 < j ∧
      segmentsFrom (fuel + 1) i (c :: rest) = (segmentsFrom fuel j after).map (w.seg :: ·)) ∨
    (∃ digits after, (Written.index digits).Valid ∧ maxStrDigits < digits.length ∧
      c :: rest = '[' :: (digits ++ ']' :: after) ∧
      segmentsFrom (fuel + 1) i (c :: rest) = .error (.int digits.length)) ∨
    ∃ e, segmentsFrom (fuel + 1) i (c :: rest) = .error e ∧ ∀ n, e ≠ .int n := by
  by_cases hc : c = '['
  · obtain rfl := hc
    have hSplit := List.takeWhile_append_dropWhile (p := (· ≠ ']')) (l := rest)
    have hTake : ∀ c ∈ rest.takeWhile (· ≠ ']'), c ≠ ']' := fun c hc => by simpa using List.mem_takeWhile_imp hc
    have hHead : ∀ c ∈ (rest.dropWhile (· ≠ ']')).head?, c = ']' := by
      intro c hc
      have hStop := List.head?_dropWhile_not (p := (· ≠ ']')) (l := rest)
      rw [Option.mem_def] at hc
      rw [hc] at hStop
      simpa using hStop
    cases hDrop : rest.dropWhile (· ≠ ']') with
    | nil =>
      refine .inr (.inr ⟨.unterminated, ?_, by simp⟩)
      rw [segmentsFrom, if_pos rfl, hDrop]
    | cons close after =>
      rw [hDrop] at hHead hSplit
      obtain rfl := hHead close rfl
      generalize hDigits : rest.takeWhile (· ≠ ']') = digits at hSplit hTake
      have hStep : segmentsFrom (fuel + 1) i ('[' :: rest) =
          if digits = [] ∨ digits.all isIndexDigit = false then .error (.index digits)
          else
            match intOf digits with
            | none => .error (.int digits.length)
            | some n => (segmentsFrom fuel (i + digits.length + 2) after).map (.index n :: ·) := by
        rw [segmentsFrom, if_pos rfl, hDrop, hDigits]
      by_cases hBad : digits = [] ∨ digits.all isIndexDigit = false
      · exact .inr (.inr ⟨.index digits, by rw [hStep, if_pos hBad], by simp⟩)
      · rw [if_neg hBad] at hStep
        rw [not_or, Bool.not_eq_false, List.all_eq_true] at hBad
        have hText : '[' :: rest = '[' :: (digits ++ ']' :: after) := by rw [hSplit]
        by_cases hLong : digits.length ≤ maxStrDigits
        · left
          have hInt : intOf digits = some (natOf digits) := if_pos hLong
          rw [hInt] at hStep
          refine ⟨.index digits, after, i + digits.length + 2, hBad, hLong, ?_, by omega, hStep⟩
          rw [hText]
          simp [lead, Written.opening, Written.text]
        · have hInt : intOf digits = none := if_neg hLong
          rw [hInt] at hStep
          exact .inr (.inl ⟨digits, after, hBad, by omega, hText, hStep⟩)
  · cases hStart : keyStart i c rest with
    | none =>
      refine .inr (.inr ⟨.unexpected c i, ?_, by simp⟩)
      rw [segmentsFrom, if_neg hc, hStart]
    | some text =>
      have hText : ∀ name, text = name ++ text.dropWhile isKeyChar →
          c :: rest = lead i (.key name) ++ text.dropWhile isKeyChar := by
        intro name hName
        rw [keyStart] at hStart
        split at hStart
        · rename_i hi
          rw [Option.some.inj hStart, lead, if_pos hi]
          exact hName
        · rename_i hi
          split at hStart
          · rename_i hDot
            rw [hDot, Option.some.inj hStart, lead, if_neg hi]
            exact congrArg ('.' :: ·) hName
          · cases hStart
      by_cases hEmpty : text.takeWhile isKeyChar = []
      · refine .inr (.inr ⟨.emptyKey, ?_, by simp⟩)
        rw [segmentsFrom, if_neg hc, hStart]
        simp only [if_pos hEmpty]
      · left
        have hLead := hText _ (List.takeWhile_append_dropWhile).symm
        refine ⟨.key (text.takeWhile isKeyChar), text.dropWhile isKeyChar,
          i + (c :: rest).length - (text.dropWhile isKeyChar).length, ⟨hEmpty, fun c hc => List.mem_takeWhile_imp hc⟩,
          trivial, hLead, ?_, ?_⟩
        · have hPos : 0 < (lead i (.key (text.takeWhile isKeyChar))).length := by
            rw [lead]
            split
            · exact List.length_pos_iff.mpr hEmpty
            · exact Nat.succ_pos _
          rw [hLead, List.length_append]
          omega
        · rw [segmentsFrom, if_neg hc, hStart]
          simp only [if_neg hEmpty]
          rfl

theorem map_eq_ok {ε α β : Type} {x : Except ε α} {f : α → β} {b : β} :
    x.map f = .ok b ↔ ∃ a, x = .ok a ∧ f a = b := by
  cases x <;> simp [Except.map]

theorem map_eq_error {ε α β : Type} {x : Except ε α} {f : α → β} {e : ε} : x.map f = .error e ↔ x = .error e := by
  cases x <;> simp [Except.map]

theorem segmentsFrom_written {fuel i : Nat} {segments : List Written} {tail : List Char} (hValid : ∀ w ∈ segments, w.Valid)
    (hShort : ∀ w ∈ segments, w.Short) (hTail : Delimited tail) (hFuel : (written i segments ++ tail).length ≤ fuel)
    (hNe : segments ≠ []) :
    ∃ left j, tail.length ≤ left ∧ 0 < j ∧
      segmentsFrom fuel i (written i segments ++ tail) = (segmentsFrom left j tail).map (segments.map Written.seg ++ ·) := by
  induction segments generalizing fuel i with
  | nil => exact absurd rfl hNe
  | cons w rest ih =>
    obtain ⟨hw, hValid⟩ := List.forall_mem_cons.mp hValid
    obtain ⟨hwShort, hShort⟩ := List.forall_mem_cons.mp hShort
    have hLead := lead_pos (i := i) hw
    rw [written, List.append_assoc, List.length_append] at hFuel
    obtain ⟨fuel, rfl⟩ := Nat.exists_eq_succ_of_ne_zero (show fuel ≠ 0 by omega)
    have hAfter : Delimited (rest.flatMap Written.text ++ tail) := delimited_written hTail
    obtain ⟨j, hj, hRound⟩ : ∃ j, 0 < j ∧ segmentsFrom (fuel + 1) i (lead i w ++ (rest.flatMap Written.text ++ tail)) =
      (segmentsFrom fuel j (rest.flatMap Written.text ++ tail)).map (w.seg :: ·) := segmentsFrom_lead hw hwShort hAfter
    rw [written, List.append_assoc, hRound]
    by_cases hRest : rest = []
    · obtain rfl := hRest
      exact ⟨fuel, j, by simp only [List.flatMap_nil, List.nil_append] at hFuel; omega, hj, rfl⟩
    · rw [← written_later hj]
      have hLess : (written j rest ++ tail).length ≤ fuel := by
        rw [written_later hj]
        omega
      obtain ⟨left, k, hLeft, hk, hAll⟩ := ih hValid hShort hLess hRest
      refine ⟨left, k, hLeft, hk, ?_⟩
      rw [hAll]
      cases segmentsFrom left k tail <;> rfl

theorem segmentsFrom_ok {fuel i : Nat} {text : List Char} {segs : List PathSeg} (hFuel : text.length ≤ fuel)
    (h : segmentsFrom fuel i text = .ok segs) :
    ∃ segments : List Written, (∀ w ∈ segments, w.Valid ∧ w.Short) ∧ text = written i segments ∧
      segs = segments.map Written.seg := by
  induction fuel generalizing i text segs with
  | zero =>
    obtain rfl := List.length_eq_zero_iff.mp (Nat.le_zero.mp hFuel)
    cases h
    exact ⟨[], by simp, rfl, rfl⟩
  | succ fuel ih =>
    cases text with
    | nil =>
      cases h
      exact ⟨[], by simp, rfl, rfl⟩
    | cons c rest =>
      rcases segmentsFrom_cases fuel i c rest with
        ⟨w, after, j, hw, hShort, hText, hj, hRound⟩ | ⟨digits, after, -, -, -, hRound⟩ | ⟨e, hRound, -⟩
      · rw [hRound, map_eq_ok] at h
        obtain ⟨segs, hRest, rfl⟩ := h
        have hLess : after.length ≤ fuel := by
          have hLead := lead_pos (i := i) hw
          have hLength := congrArg List.length hText
          rw [List.length_append] at hLength
          omega
        obtain ⟨segments, hSegments, hAfter, rfl⟩ := ih hLess hRest
        refine ⟨w :: segments, List.forall_mem_cons.mpr ⟨⟨hw, hShort⟩, hSegments⟩, ?_, rfl⟩
        rw [hText, hAfter, written_later hj]
        rfl
      · rw [hRound] at h
        cases h
      · rw [hRound] at h
        cases h

/-- The index that `int()` refuses stands behind segments that it takes. -/
theorem segmentsFrom_int {fuel i n : Nat} {text : List Char} (hFuel : text.length ≤ fuel)
    (h : segmentsFrom fuel i text = .error (.int n)) :
    ∃ segments digits after, (∀ w ∈ segments, w.Valid ∧ w.Short) ∧ (Written.index digits).Valid ∧
      maxStrDigits < digits.length ∧ text = written i segments ++ '[' :: (digits ++ ']' :: after) := by
  induction fuel generalizing i text with
  | zero =>
    obtain rfl := List.length_eq_zero_iff.mp (Nat.le_zero.mp hFuel)
    cases h
  | succ fuel ih =>
    cases text with
    | nil => cases h
    | cons c rest =>
      rcases segmentsFrom_cases fuel i c rest with
        ⟨w, after, j, hw, hShort, hText, hj, hRound⟩ | ⟨digits, after, hDigits, hLong, hText, -⟩ | ⟨e, hRound, hNot⟩
      · rw [hRound, map_eq_error] at h
        have hLess : after.length ≤ fuel := by
          have hLead := lead_pos (i := i) hw
          have hLength := congrArg List.length hText
          rw [List.length_append] at hLength
          omega
        obtain ⟨segments, digits, tail, hSegments, hDigits, hLong, hAfter⟩ := ih hLess h
        refine ⟨w :: segments, digits, tail, List.forall_mem_cons.mpr ⟨⟨hw, hShort⟩, hSegments⟩, hDigits, hLong, ?_⟩
        rw [hText, hAfter, written_later hj, written, List.append_assoc]
      · exact ⟨[], digits, after, by simp, hDigits, hLong, hText⟩
      · rw [hRound] at h
        exact absurd (Except.error.inj h) (hNot n)

/-! ## The path as a whole -/

/-- The parser takes the texts of the grammar whose indexes `int()` takes. -/
theorem parsePath_ok_iff {path : List Char} {segs : List PathSeg} :
    parsePath path = .ok segs ↔
      ∃ segments, Grammar path segments ∧ (∀ w ∈ segments, w.Short) ∧ segs = segments.map Written.seg := by
  rw [parsePath]
  constructor
  · intro h
    split at h
    · cases h
    · rename_i hNe
      obtain ⟨segments, hAll, hText, hSegs⟩ := segmentsFrom_ok le_rfl h
      rw [written_zero] at hText
      refine ⟨segments, ⟨?_, fun w hw => (hAll w hw).1, hText⟩, fun w hw => (hAll w hw).2, hSegs⟩
      rintro rfl
      exact hNe hText
  · rintro ⟨segments, ⟨hNe, hValid, rfl⟩, hShort, rfl⟩
    have hEnd : Delimited [] := fun c hc => nomatch hc
    obtain ⟨left, j, -, -, hAll⟩ :=
      segmentsFrom_written hValid hShort hEnd (le_refl (written 0 segments ++ []).length) hNe
    have hText : pathText segments ≠ [] := by
      obtain ⟨w, rest, rfl⟩ := List.exists_cons_of_ne_nil hNe
      have hLead := lead_pos (i := 0) (hValid w List.mem_cons_self)
      rw [← written_zero, written]
      exact List.append_ne_nil_of_left_ne_nil (List.length_pos_iff.mp hLead) _
    rw [List.append_nil, written_zero] at hAll
    have hDone : segmentsFrom left j [] = .ok [] := by cases left <;> rfl
    rw [if_neg hText, hAll, hDone]
    simp [Except.map]

/-- An index with more digits than `int()` takes, behind segments that are read. -/
def Overlong (path : List Char) : Prop :=
  ∃ segments digits after, (∀ w ∈ segments, w.Valid ∧ w.Short) ∧ (Written.index digits).Valid ∧
    maxStrDigits < digits.length ∧ path = pathText segments ++ '[' :: (digits ++ ']' :: after)

theorem parsePath_int_iff {path : List Char} : (∃ n, parsePath path = .error (.int n)) ↔ Overlong path := by
  rw [parsePath]
  constructor
  · rintro ⟨n, h⟩
    split at h
    · cases h
    · obtain ⟨segments, digits, after, hSegments, hDigits, hLong, hText⟩ := segmentsFrom_int le_rfl h
      exact ⟨segments, digits, after, hSegments, hDigits, hLong, by rw [hText, written_zero]⟩
  · rintro ⟨segments, digits, after, hSegments, hDigits, hLong, rfl⟩
    have hNe : pathText segments ++ '[' :: (digits ++ ']' :: after) ≠ [] := by simp
    have hTail : Delimited ('[' :: (digits ++ ']' :: after)) := by
      intro c hc
      obtain rfl : '[' = c := by simpa using hc
      exact .inl rfl
    have hRefuse : ∀ {fuel i : Nat}, ('[' :: (digits ++ ']' :: after)).length ≤ fuel →
        segmentsFrom fuel i ('[' :: (digits ++ ']' :: after)) = .error (.int digits.length) := by
      intro fuel i hFuel
      obtain ⟨fuel, rfl⟩ := Nat.exists_eq_succ_of_ne_zero (show fuel ≠ 0 by rw [List.length_cons] at hFuel; omega)
      have hInt : intOf digits = none := if_neg (by omega)
      rw [segmentsFrom_index hDigits, hInt]
    rw [if_neg hNe]
    refine ⟨digits.length, ?_⟩
    by_cases hSome : segments = []
    · obtain rfl := hSome
      exact hRefuse le_rfl
    · have hLength := le_refl (written 0 segments ++ '[' :: (digits ++ ']' :: after)).length
      obtain ⟨left, j, hLeft, -, hAll⟩ := segmentsFrom_written (fun w hw => (hSegments w hw).1)
        (fun w hw => (hSegments w hw).2) hTail hLength hSome
      rw [written_zero] at hAll
      rw [hAll, hRefuse hLeft]
      rfl

/-- A text of the grammar has an overlong index, or `int()` takes all its indexes. -/
theorem short_of_not_overlong {path : List Char} {segments : List Written} (h : Grammar path segments)
    (hNot : ¬ Overlong path) : ∀ w ∈ segments, w.Short := by
  obtain ⟨-, hValid, rfl⟩ := h
  have hFront : ∀ front rest, segments = front ++ rest → ∀ w ∈ front, w.Short := by
    intro front
    induction front using List.reverseRecOn with
    | nil =>
      intro rest _ w hw
      cases hw
    | append_singleton front last ih =>
      intro rest hSplit w hw
      have hShort := ih ([last] ++ rest) (by rw [hSplit, List.append_assoc])
      rcases List.mem_append.mp hw with hw | hw
      · exact hShort w hw
      · obtain rfl := List.mem_singleton.mp hw
        have hMem : ∀ x ∈ front ++ [w], x ∈ segments := fun x hx => hSplit ▸ List.mem_append_left rest hx
        cases w with
        | key name => trivial
        | index digits =>
          by_contra hLong
          apply hNot
          refine ⟨front, digits, rest.flatMap Written.text, ?_, hValid _ (hMem _ (by simp)), not_le.mp hLong, ?_⟩
          · exact fun x hx => ⟨hValid x (hMem x (List.mem_append_left _ hx)), hShort x hx⟩
          · rw [hSplit]
            cases front <;> simp [pathText, Written.opening, Written.text]
  intro w hw
  exact hFront segments [] (List.append_nil _).symm w hw

theorem digitValue_le {c : Char} {d : Nat} (h : digitValue c = some d) : d ≤ 9 := by
  obtain ⟨z, hz, rfl⟩ := Option.map_eq_some_iff.mp h
  have hRange := List.find?_some hz
  simp only [Bool.and_eq_true, decide_eq_true_eq] at hRange
  omega

theorem natOf_lt (digits : List Char) : natOf digits < 10 ^ digits.length := by
  have hFold : ∀ (ds : List Char) (n : Nat), ds.foldl (fun n c => 10 * n + (digitValue c).getD 0) n <
      (n + 1) * 10 ^ ds.length := by
    intro ds
    induction ds with
    | nil => simp
    | cons d ds ih =>
      intro n
      have hd : (digitValue d).getD 0 ≤ 9 := by
        cases hValue : digitValue d with
        | none => exact Nat.zero_le 9
        | some value => exact digitValue_le hValue
      have hRest := ih (10 * n + (digitValue d).getD 0)
      rw [List.foldl_cons, List.length_cons, pow_succ]
      have hMono : (10 * n + (digitValue d).getD 0 + 1) * 10 ^ ds.length ≤ (10 * n + 10) * 10 ^ ds.length :=
        Nat.mul_le_mul_right _ (by omega)
      calc _ < (10 * n + (digitValue d).getD 0 + 1) * 10 ^ ds.length := hRest
        _ ≤ (10 * n + 10) * 10 ^ ds.length := hMono
        _ = (n + 1) * (10 ^ ds.length * 10) := by ring
  simpa [natOf] using hFold digits 0

theorem parsePath_print {path : List Char} {segs : List PathSeg} (h : parsePath path = .ok segs) :
    parsePath (printPath segs) = .ok segs := by
  obtain ⟨segments, ⟨hNe, hValid, -⟩, hShort, rfl⟩ := parsePath_ok_iff.mp h
  have hEach : ∀ w ∈ segments, w.seg.written.Valid ∧ w.seg.written.Short ∧ w.seg.written.seg = w.seg := by
    intro w hw
    cases w with
    | key name => exact ⟨hValid _ hw, trivial, rfl⟩
    | index digits =>
      have hLength : digits.length ≤ maxStrDigits := hShort _ hw
      refine ⟨⟨decimal_ne_nil _, ?_⟩, ?_, ?_⟩
      · intro c hc
        obtain ⟨d, hd, rfl⟩ := mem_decimal hc
        have hDigit : ∀ d < 10, isIndexDigit (Nat.digitChar d) = true := by decide
        exact hDigit d hd
      · apply (length_decimal_le_iff _ _ (by decide)).mpr
        exact (natOf_lt digits).trans_le (Nat.pow_le_pow_right (by decide) hLength)
      · rw [Written.seg, PathSeg.written, Written.seg, natOf_decimal]
  refine parsePath_ok_iff.mpr ⟨(segments.map Written.seg).map PathSeg.written, ⟨by simpa using hNe, ?_, rfl⟩, ?_, ?_⟩
  · simpa using fun w hw => (hEach w hw).1
  · simpa using fun w hw => (hEach w hw).2.1
  · rw [List.map_map, List.map_map]
    exact (List.map_congr_left fun w hw => (hEach w hw).2.2).symm

/-! ## Paths with tokens -/

def fill (value : List Char → List Char) : Piece → List Char
  | .char c => [c]
  | .token key => value key

def fillAll (value : List Char → List Char) (path : List Piece) : List Char := path.flatMap (fill value)

/-- Every token stands for a part of one segment. -/
def OneSegment (value : List Char → List Char) (path : List Piece) : Prop :=
  ∀ key, Piece.token key ∈ path → value key ≠ [] ∧ ∀ c ∈ value key, isKeyChar c = true

/-- A segment of a path before its tokens are replaced. -/
inductive Slot where
  | key (content : List Piece)
  | index (content : List Piece)

namespace Slot

def content : Slot → List Piece
  | key content => content
  | index content => content

def opening : Slot → List Piece
  | key content => content
  | index content => .char '[' :: content ++ [.char ']']

def pieces : Slot → List Piece
  | key content => .char '.' :: content
  | index content => .char '[' :: content ++ [.char ']']

end Slot

def Slot.lead (i : Nat) (slot : Slot) : List Piece := if i = 0 then slot.opening else slot.pieces

def laid (i : Nat) : List Slot → List Piece
  | [] => []
  | slot :: rest => slot.lead i ++ rest.flatMap Slot.pieces

def Fills (value : List Char → List Char) : Slot → Written → Prop
  | .key content, .key name => name = fillAll value content
  | .index content, .index digits => digits = fillAll value content
  | _, _ => False

/-- A test of characters, for pieces: a token passes. -/
def onPiece (p : Char → Bool) : Piece → Bool
  | .char c => p c
  | .token _ => true

def Slot.Proper : Slot → Prop
  | .key content => content ≠ [] ∧ ∀ piece ∈ content, onPiece isKeyChar piece = true
  | .index content => ∀ piece ∈ content, onPiece (· ≠ ']') piece = true

section Slots

variable {value : List Char → List Char} {path : List Piece}

theorem OneSegment.sublist {part : List Piece} (h : OneSegment value path) (hPart : part.Sublist path) :
    OneSegment value part := fun key hMem => h key (hPart.subset hMem)

theorem fillAll_takeWhile {p : Char → Bool} (h : ∀ key, Piece.token key ∈ path → ∀ c ∈ value key, p c = true) :
    (fillAll value path).takeWhile p = fillAll value (path.takeWhile (onPiece p)) ∧
      (fillAll value path).dropWhile p = fillAll value (path.dropWhile (onPiece p)) := by
  induction path with
  | nil => exact ⟨rfl, rfl⟩
  | cons piece path ih =>
    obtain ⟨hTake, hDrop⟩ := ih fun key hMem => h key (List.mem_cons_of_mem _ hMem)
    cases piece with
    | char c =>
      cases hc : p c with
      | true =>
        simp only [fillAll, List.flatMap_cons, fill, List.singleton_append, onPiece, hc, List.takeWhile_cons,
          List.dropWhile_cons, if_true]
        exact ⟨congrArg (c :: ·) hTake, hDrop⟩
      | false => simp [fillAll, fill, onPiece, hc]
    | token key =>
      have hKey := h key List.mem_cons_self
      have hTakeKey : (value key).takeWhile p = value key := List.takeWhile_eq_self_iff.mpr hKey
      have hDropKey : (value key).dropWhile p = [] := List.dropWhile_eq_nil_iff.mpr hKey
      simp only [fillAll, List.flatMap_cons, fill, onPiece, List.takeWhile_cons, List.dropWhile_cons, if_true]
      rw [List.takeWhile_append, List.dropWhile_append, hTakeKey, hDropKey]
      simp only [if_true, List.isEmpty_nil]
      exact ⟨congrArg (value key ++ ·) hTake, hDrop⟩

theorem head_of_fill {c : Char} {rest : List Char} (h : OneSegment value path) (hc : isKeyChar c = false)
    (hFill : fillAll value path = c :: rest) : ∃ tail, path = .char c :: tail ∧ fillAll value tail = rest := by
  cases path with
  | nil => cases hFill
  | cons piece tail =>
    cases piece with
    | char c' =>
      obtain ⟨rfl, hRest⟩ := List.cons.inj hFill
      exact ⟨tail, rfl, hRest⟩
    | token key =>
      obtain ⟨hNe, hKey⟩ := h key List.mem_cons_self
      obtain ⟨c', value', hValue⟩ := List.exists_cons_of_ne_nil hNe
      simp only [fillAll, List.flatMap_cons, fill, hValue, List.cons_append, List.cons.injEq] at hFill
      have hBad := hKey c' (by rw [hValue]; exact List.mem_cons_self)
      rw [hFill.1, hc] at hBad
      cases hBad

theorem fillAll_eq_nil (h : OneSegment value path) (hFill : fillAll value path = []) : path = [] := by
  cases path with
  | nil => rfl
  | cons piece tail =>
    cases piece with
    | char c => cases hFill
    | token key =>
      have hNil := (List.append_eq_nil_iff.mp hFill).1
      exact absurd hNil (h key List.mem_cons_self).1

theorem laid_later {i : Nat} (hi : 0 < i) (slots : List Slot) : laid i slots = slots.flatMap Slot.pieces := by
  cases slots with
  | nil => rfl
  | cons slot rest =>
    rw [laid, Slot.lead, if_neg (by omega)]
    rfl

theorem key_of_fill {name tail : List Char} (h : OneSegment value path) (hName : (Written.key name).Valid)
    (hTail : Delimited tail) (hFill : fillAll value path = name ++ tail) :
    ∃ content rest, (Slot.key content).Proper ∧ path = content ++ rest ∧ name = fillAll value content ∧
      fillAll value rest = tail := by
  obtain ⟨hTake, hDrop⟩ := fillAll_takeWhile fun key hMem => (h key hMem).2
  obtain ⟨hFront, hBack⟩ := takeWhile_append_stop hName.2 hTail.not_key
  rw [hFill, hFront] at hTake
  rw [hFill, hBack] at hDrop
  refine ⟨_, _, ⟨?_, fun piece hMem => List.mem_takeWhile_imp hMem⟩, (List.takeWhile_append_dropWhile).symm, hTake,
    hDrop.symm⟩
  intro hNil
  rw [hNil] at hTake
  exact hName.1 hTake

/-- The part of a path that fills an index, and what its bracket leaves. -/
theorem index_of_fill {digits tail : List Char} (h : OneSegment value path) (hDigits : (Written.index digits).Valid)
    (hFill : fillAll value path = digits ++ ']' :: tail) :
    ∃ content rest, (Slot.index content).Proper ∧ path = content ++ .char ']' :: rest ∧ digits = fillAll value content ∧
      fillAll value rest = tail := by
  have hTokens : ∀ key, Piece.token key ∈ path → ∀ c ∈ value key, (decide (c ≠ ']')) = true := by
    intro key hMem c hc
    rw [decide_eq_true_eq]
    rintro rfl
    exact absurd ((h key hMem).2 _ hc) (by decide)
  obtain ⟨hTake, hDrop⟩ := fillAll_takeWhile hTokens
  obtain ⟨hFront, hBack⟩ : (digits ++ ']' :: tail).takeWhile (· ≠ ']') = digits ∧
      (digits ++ ']' :: tail).dropWhile (· ≠ ']') = ']' :: tail := takeWhile_digits hDigits.2
  rw [hFill, hFront] at hTake
  rw [hFill, hBack] at hDrop
  obtain ⟨rest, hRest, hFillRest⟩ := head_of_fill (h.sublist (List.dropWhile_sublist _)) (by decide) hDrop.symm
  refine ⟨_, rest, fun piece hMem => List.mem_takeWhile_imp hMem, ?_, hTake, hFillRest⟩
  rw [← hRest, List.takeWhile_append_dropWhile]

/-- A filled path that is written in segments has a slot for each of them. -/
theorem exists_slots {i : Nat} {segments : List Written} (hValid : ∀ w ∈ segments, w.Valid) (h : OneSegment value path)
    (hFill : fillAll value path = written i segments) :
    ∃ slots : List Slot, (∀ slot ∈ slots, slot.Proper) ∧ path = laid i slots ∧ List.Forall₂ (Fills value) slots segments := by
  induction segments generalizing i path with
  | nil => exact ⟨[], by simp, fillAll_eq_nil h hFill, .nil⟩
  | cons w segments ih =>
    obtain ⟨hw, hValid⟩ := List.forall_mem_cons.mp hValid
    have hRest : ∀ {front rest : List Piece}, path = front ++ rest → fillAll value rest = segments.flatMap Written.text →
        ∃ slots : List Slot, (∀ slot ∈ slots, slot.Proper) ∧ rest = slots.flatMap Slot.pieces ∧
          List.Forall₂ (Fills value) slots segments := by
      intro front rest hPath hFill
      have hPart : OneSegment value rest := h.sublist (hPath ▸ List.sublist_append_right front rest)
      rw [← written_later Nat.one_pos] at hFill
      obtain ⟨slots, hProper, hLaid, hFills⟩ := ih hValid hPart hFill
      exact ⟨slots, hProper, by rw [hLaid, laid_later Nat.one_pos], hFills⟩
    cases w with
    | index digits =>
      have hText : fillAll value path = '[' :: (digits ++ ']' :: segments.flatMap Written.text) := by
        rw [hFill, written, lead]
        simp [Written.opening, Written.text]
      obtain ⟨inner, rfl, hInner⟩ := head_of_fill h (by decide) hText
      obtain ⟨content, rest, hProper, rfl, hContent, hFillRest⟩ :=
        index_of_fill (h.sublist (List.sublist_cons_self _ _)) hw hInner
      have hPath : Piece.char '[' :: (content ++ .char ']' :: rest) = (.char '[' :: content ++ [.char ']']) ++ rest := by simp
      obtain ⟨slots, hSlots, rfl, hFills⟩ := hRest hPath hFillRest
      refine ⟨.index content :: slots, List.forall_mem_cons.mpr ⟨hProper, hSlots⟩, ?_, .cons hContent hFills⟩
      rw [laid, Slot.lead, Slot.opening, Slot.pieces, ite_self, hPath]
    | key name =>
      by_cases hi : i = 0
      · have hText : fillAll value path = name ++ segments.flatMap Written.text := by
          rw [hFill, written, lead, if_pos hi]
          rfl
        have hTail : Delimited (segments.flatMap Written.text) := by
          have hEnd : Delimited [] := fun c hc => nomatch hc
          have hAll : Delimited (segments.flatMap Written.text ++ []) := delimited_written hEnd
          rwa [List.append_nil] at hAll
        obtain ⟨content, rest, hProper, hPath, hContent, hFillRest⟩ := key_of_fill h hw hTail hText
        obtain ⟨slots, hSlots, rfl, hFills⟩ := hRest hPath hFillRest
        refine ⟨.key content :: slots, List.forall_mem_cons.mpr ⟨hProper, hSlots⟩, ?_, .cons hContent hFills⟩
        rw [laid, Slot.lead, if_pos hi, hPath]
        rfl
      · have hText : fillAll value path = '.' :: (name ++ segments.flatMap Written.text) := by
          rw [hFill, written, lead, if_neg hi]
          rfl
        have hTail : Delimited (segments.flatMap Written.text) := by
          have hEnd : Delimited [] := fun c hc => nomatch hc
          have hAll : Delimited (segments.flatMap Written.text ++ []) := delimited_written hEnd
          rwa [List.append_nil] at hAll
        obtain ⟨inner, rfl, hInner⟩ := head_of_fill h (by decide) hText
        obtain ⟨content, rest, hProper, rfl, hContent, hFillRest⟩ :=
          key_of_fill (h.sublist (List.sublist_cons_self _ _)) hw hTail hInner
        have hPath : Piece.char '.' :: (content ++ rest) = (.char '.' :: content) ++ rest := rfl
        obtain ⟨slots, hSlots, rfl, hFills⟩ := hRest hPath hFillRest
        refine ⟨.key content :: slots, List.forall_mem_cons.mpr ⟨hProper, hSlots⟩, ?_, .cons hContent hFills⟩
        rw [laid, Slot.lead, if_neg hi, hPath]
        rfl

end Slots

/-! ## One layout for every value -/

theorem head_slots {slots : List Slot} : ∀ piece ∈ (slots.flatMap Slot.pieces).head?, onPiece isKeyChar piece = false := by
  intro piece hPiece
  cases slots with
  | nil => cases hPiece
  | cons slot rest =>
    cases slot with
    | key content =>
      obtain rfl : Piece.char '.' = piece := by simpa [Slot.pieces] using hPiece
      decide
    | index content =>
      obtain rfl : Piece.char '[' = piece := by simpa [Slot.pieces] using hPiece
      decide

theorem slots_inj_key {content content' : List Piece} {slots slots' : List Slot} (hProper : (Slot.key content).Proper)
    (hProper' : (Slot.key content').Proper)
    (h : content ++ slots.flatMap Slot.pieces = content' ++ slots'.flatMap Slot.pieces) :
    content = content' ∧ slots.flatMap Slot.pieces = slots'.flatMap Slot.pieces := by
  obtain ⟨hTake, hDrop⟩ := takeWhile_append_stop hProper.2 (@head_slots slots)
  obtain ⟨hTake', hDrop'⟩ := takeWhile_append_stop hProper'.2 (@head_slots slots')
  rw [h] at hTake hDrop
  exact ⟨hTake.symm.trans hTake', hDrop.symm.trans hDrop'⟩

theorem slots_inj_index {content content' rest rest' : List Piece} (hProper : (Slot.index content).Proper)
    (hProper' : (Slot.index content').Proper) (h : content ++ .char ']' :: rest = content' ++ .char ']' :: rest') :
    content = content' ∧ rest = rest' := by
  have hStop : ∀ rest : List Piece, ∀ piece ∈ (Piece.char ']' :: rest).head?, onPiece (· ≠ ']') piece = false := by
    intro rest piece hPiece
    obtain rfl : Piece.char ']' = piece := by simpa using hPiece
    decide
  obtain ⟨hTake, hDrop⟩ := takeWhile_append_stop hProper (hStop rest)
  obtain ⟨hTake', hDrop'⟩ := takeWhile_append_stop hProper' (hStop rest')
  rw [h] at hTake hDrop
  exact ⟨hTake.symm.trans hTake', List.tail_eq_of_cons_eq (hDrop.symm.trans hDrop')⟩

theorem index_pieces (content rest : List Piece) :
    (.char '[' :: content ++ [.char ']']) ++ rest = Piece.char '[' :: (content ++ .char ']' :: rest) := by simp

theorem pieces_inj {slots slots' : List Slot} (hProper : ∀ slot ∈ slots, slot.Proper)
    (hProper' : ∀ slot ∈ slots', slot.Proper) (h : slots.flatMap Slot.pieces = slots'.flatMap Slot.pieces) :
    slots = slots' := by
  induction slots generalizing slots' with
  | nil =>
    cases slots' with
    | nil => rfl
    | cons slot' rest' => cases slot' <;> simp [Slot.pieces] at h
  | cons slot rest ih =>
    obtain ⟨hSlot, hRests⟩ := List.forall_mem_cons.mp hProper
    cases slots' with
    | nil => cases slot <;> simp [Slot.pieces] at h
    | cons slot' rest' =>
      obtain ⟨hSlot', hRests'⟩ := List.forall_mem_cons.mp hProper'
      rw [List.flatMap_cons, List.flatMap_cons] at h
      cases slot with
      | key content =>
        cases slot' with
        | key content' =>
          obtain ⟨rfl, hRest⟩ := slots_inj_key hSlot hSlot' (List.tail_eq_of_cons_eq h)
          rw [ih hRests hRests' hRest]
        | index content' => simp [Slot.pieces] at h
      | index content =>
        cases slot' with
        | key content' => simp [Slot.pieces] at h
        | index content' =>
          rw [Slot.pieces, Slot.pieces, index_pieces, index_pieces] at h
          obtain ⟨rfl, hRest⟩ := slots_inj_index hSlot hSlot' (List.tail_eq_of_cons_eq h)
          rw [ih hRests hRests' hRest]

theorem laid_inj {slots slots' : List Slot} (hProper : ∀ slot ∈ slots, slot.Proper)
    (hProper' : ∀ slot ∈ slots', slot.Proper) (h : laid 0 slots = laid 0 slots') : slots = slots' := by
  have hOpen : ∀ {content content' rest : List Piece}, (Slot.key content).Proper →
      content ++ rest ≠ .char '[' :: content' := by
    intro content content' rest hKey hEq
    obtain ⟨piece, content, rfl⟩ := List.exists_cons_of_ne_nil hKey.1
    have hBad := hKey.2 piece List.mem_cons_self
    rw [(List.cons.inj hEq).1] at hBad
    exact absurd hBad (by decide)
  cases slots with
  | nil =>
    cases slots' with
    | nil => rfl
    | cons slot' rest' =>
      cases slot' with
      | key content' =>
        have hNil := (List.append_eq_nil_iff.mp h.symm).1
        exact absurd hNil (hProper' _ List.mem_cons_self).1
      | index content' => cases h
  | cons slot rest =>
    obtain ⟨hSlot, hRests⟩ := List.forall_mem_cons.mp hProper
    cases slots' with
    | nil =>
      cases slot with
      | key content => exact absurd (List.append_eq_nil_iff.mp h).1 hSlot.1
      | index content => cases h
    | cons slot' rest' =>
      obtain ⟨hSlot', hRests'⟩ := List.forall_mem_cons.mp hProper'
      cases slot with
      | key content =>
        cases slot' with
        | key content' =>
          obtain ⟨rfl, hRest⟩ := slots_inj_key hSlot hSlot' h
          rw [pieces_inj hRests hRests' hRest]
        | index content' => exact absurd h (hOpen hSlot)
      | index content =>
        cases slot' with
        | key content' => exact absurd h.symm (hOpen hSlot')
        | index content' =>
          rw [laid, laid, Slot.lead, Slot.lead, if_pos rfl, if_pos rfl, Slot.opening, Slot.opening, index_pieces,
            index_pieces] at h
          obtain ⟨rfl, hRest⟩ := slots_inj_index hSlot hSlot' (List.tail_eq_of_cons_eq h)
          rw [pieces_inj hRests hRests' hRest]

/-! ## Two values for the tokens of a path -/

def PathSeg.isKey : PathSeg → Bool
  | .key _ => true
  | .index _ => false

def Slot.Plain (slot : Slot) : Prop := ∀ key, Piece.token key ∉ slot.content

theorem fillAll_plain {value value' : List Char → List Char} {content : List Piece}
    (h : ∀ key, Piece.token key ∉ content) : fillAll value content = fillAll value' content := by
  apply List.flatMap_congr
  intro piece hMem
  cases piece with
  | char c => rfl
  | token key => exact absurd hMem (h key)

/-- The segments of a path that are parsed under two values, against its slots. -/
def Alike (slots : List Slot) (segs segs' : List PathSeg) : Prop :=
  segs.length = segs'.length ∧
    List.Forall₂ (fun slot pair => pair.1.isKey = pair.2.isKey ∧ (slot.Plain → pair.1 = pair.2)) slots (segs.zip segs')

theorem alike_of_fills {value value' : List Char → List Char} {slots : List Slot} {segments segments' : List Written}
    (h : List.Forall₂ (Fills value) slots segments) (h' : List.Forall₂ (Fills value') slots segments') :
    Alike slots (segments.map Written.seg) (segments'.map Written.seg) := by
  induction h generalizing segments' with
  | nil =>
    cases h'
    exact ⟨rfl, .nil⟩
  | @cons slot w slots segments hHead _ ih =>
    obtain ⟨w', segments', hHead', hRest', rfl⟩ := List.forall₂_cons_left_iff.mp h'
    obtain ⟨hLength, hAll⟩ := ih hRest'
    refine ⟨by simpa using hLength, .cons ?_ hAll⟩
    cases slot with
    | key content =>
      cases w with
      | index digits => cases hHead
      | key name =>
        cases w' with
        | index digits' => cases hHead'
        | key name' =>
          obtain rfl : name = fillAll value content := hHead
          obtain rfl : name' = fillAll value' content := hHead'
          exact ⟨rfl, fun hPlain => congrArg PathSeg.key (fillAll_plain hPlain)⟩
    | index content =>
      cases w with
      | key name => cases hHead
      | index digits =>
        cases w' with
        | key name' => cases hHead'
        | index digits' =>
          obtain rfl : digits = fillAll value content := hHead
          obtain rfl : digits' = fillAll value' content := hHead'
          exact ⟨rfl, fun hPlain => congrArg (fun ds => PathSeg.index (natOf ds)) (fillAll_plain hPlain)⟩

theorem parsePath_alike {path : List Piece} {value value' : List Char → List Char} (h : OneSegment value path)
    (h' : OneSegment value' path) {segs segs' : List PathSeg} (hSegs : parsePath (fillAll value path) = .ok segs)
    (hSegs' : parsePath (fillAll value' path) = .ok segs') :
    ∃ slots, path = laid 0 slots ∧ Alike slots segs segs' := by
  obtain ⟨segments, ⟨-, hValid, hText⟩, -, rfl⟩ := parsePath_ok_iff.mp hSegs
  obtain ⟨segments', ⟨-, hValid', hText'⟩, -, rfl⟩ := parsePath_ok_iff.mp hSegs'
  rw [← written_zero] at hText hText'
  obtain ⟨slots, hProper, hLaid, hFills⟩ := exists_slots hValid h hText
  obtain ⟨slots', hProper', hLaid', hFills'⟩ := exists_slots hValid' h' hText'
  obtain rfl := laid_inj hProper hProper' (hLaid.symm.trans hLaid')
  exact ⟨slots, hLaid, alike_of_fills hFills hFills'⟩

end Bajutsu.Orchestrator.Http
