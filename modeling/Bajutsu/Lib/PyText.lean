import Mathlib.Data.List.DropRight
import Mathlib.Data.Nat.Digits.Lemmas
import Mathlib.Tactic

/-!
# Python text as lists of characters

Whitespace, decimal digits, `int`, `strip` and `split` as Python's `str` has them, on the characters
of a text. A decimal digit is any character of Unicode category `Nd`, and `int` refuses a text longer
than the interpreter's digit limit.
-/

namespace PyText

def spaceCodes : List Nat :=
  [9, 10, 11, 12, 13, 28, 29, 30, 31, 32, 0x85, 0xa0, 0x1680, 0x2000, 0x2001, 0x2002, 0x2003, 0x2004,
    0x2005, 0x2006, 0x2007, 0x2008, 0x2009, 0x200a, 0x2028, 0x2029, 0x202f, 0x205f, 0x3000]

/-- `str.isspace`, which `re`'s `\s` shares. -/
def isSpace (c : Char) : Bool := c.toNat ∈ spaceCodes

/-- The zeros of Unicode's runs of ten decimal digits. -/
def decimalZeros : List Nat :=
  [0x30, 0x660, 0x6f0, 0x7c0, 0x966, 0x9e6, 0xa66, 0xae6, 0xb66, 0xbe6, 0xc66, 0xce6, 0xd66, 0xde6,
    0xe50, 0xed0, 0xf20, 0x1040, 0x1090, 0x17e0, 0x1810, 0x1946, 0x19d0, 0x1a80, 0x1a90, 0x1b50,
    0x1bb0, 0x1c40, 0x1c50, 0xa620, 0xa8d0, 0xa900, 0xa9d0, 0xa9f0, 0xaa50, 0xabf0, 0xff10, 0x104a0,
    0x10d30, 0x11066, 0x110f0, 0x11136, 0x111d0, 0x112f0, 0x11450, 0x114d0, 0x11650, 0x116c0,
    0x11730, 0x118e0, 0x11950, 0x11c50, 0x11d50, 0x11da0, 0x11f50, 0x16a60, 0x16ac0, 0x16b50,
    0x1d7ce, 0x1d7d8, 0x1d7e2, 0x1d7ec, 0x1d7f6, 0x1e140, 0x1e2f0, 0x1e4f0, 0x1e950, 0x1fbf0]

def digitValue (c : Char) : Option Nat :=
  (decimalZeros.find? fun z => z ≤ c.toNat && c.toNat ≤ z + 9).map fun z => c.toNat - z

/-- `re`'s `\d`. -/
def isDigit (c : Char) : Bool := (digitValue c).isSome

def maxStrDigits : Nat := 4300

def natOf (digits : List Char) : Nat :=
  digits.foldl (fun n c => 10 * n + (digitValue c).getD 0) 0

/-- `int(digits)` on a text of decimal digits; `none` is the `ValueError` past the limit. -/
def intOf (digits : List Char) : Option Nat :=
  if digits.length ≤ maxStrDigits then some (natOf digits) else none

def strip (cs : List Char) : List Char := (cs.dropWhile isSpace).rdropWhile isSpace

/-- The pieces between whitespace characters, empty ones included. -/
def pieces : List Char → List (List Char)
  | [] => [[]]
  | c :: cs => if isSpace c then [] :: pieces cs else (pieces cs).modifyHead (c :: ·)

/-- `str.split()`. -/
def words (cs : List Char) : List (List Char) := (pieces cs).filter fun w => w ≠ []

/-- `str.split("||")`. -/
def splitBars : List Char → List (List Char)
  | [] => [[]]
  | '|' :: '|' :: cs => [] :: splitBars cs
  | c :: cs => (splitBars cs).modifyHead (c :: ·)

theorem not_isDigit_of_isSpace {c : Char} (h : isSpace c = true) : isDigit c = false := by
  have hCodes : ∀ n ∈ spaceCodes, (decimalZeros.find? fun z => z ≤ n && n ≤ z + 9) = none := by decide
  rw [isDigit, digitValue, hCodes c.toNat (by simpa [isSpace] using h)]
  rfl

/-- A run of characters that satisfy `p`, up to the first that does not. -/
theorem takeWhile_dropWhile_append {α : Type*} {p : α → Bool} {run rest : List α}
    (hRun : ∀ c ∈ run, p c = true) (hRest : ∀ c ∈ rest.head?, p c = false) :
    (run ++ rest).takeWhile p = run ∧ (run ++ rest).dropWhile p = rest := by
  rw [List.takeWhile_append_of_pos hRun, List.dropWhile_append_of_pos hRun]
  cases rest with
  | nil => simp
  | cons c rest =>
    have hc := hRest c rfl
    simp [hc]

theorem strip_surrounded {lead body trail : List Char} (hLead : ∀ c ∈ lead, isSpace c = true)
    (hTrail : ∀ c ∈ trail, isSpace c = true) (hHead : ∀ c ∈ body.head?, isSpace c = false)
    (hLast : ∀ c ∈ body.getLast?, isSpace c = false) : strip (lead ++ body ++ trail) = body := by
  have hReverse (c : Char) (hc : c ∈ trail.reverse) : isSpace c = true :=
    hTrail c (List.mem_reverse.mp hc)
  cases body with
  | nil =>
    rw [strip, List.append_nil, List.dropWhile_eq_nil_iff.mpr]
    · rfl
    · exact fun c hc => (List.mem_append.mp hc).elim (hLead c) (hTrail c)
  | cons c body =>
    have hFront : (lead ++ (c :: body ++ trail)).dropWhile isSpace = c :: body ++ trail :=
      (takeWhile_dropWhile_append hLead (by simpa using hHead)).2
    have hBack : (trail.reverse ++ (c :: body).reverse).dropWhile isSpace = (c :: body).reverse :=
      (takeWhile_dropWhile_append hReverse (by rwa [List.head?_reverse])).2
    rw [strip, List.append_assoc, hFront, List.rdropWhile, List.reverse_append, hBack,
      List.reverse_reverse]

theorem pieces_append {w : List Char} (hWord : ∀ c ∈ w, isSpace c = false) (cs : List Char) :
    pieces (w ++ cs) = (pieces cs).modifyHead (w ++ ·) := by
  induction w with
  | nil => cases hPieces : pieces cs <;> simp [hPieces]
  | cons c w ih =>
    obtain ⟨hc, hWord⟩ := List.forall_mem_cons.mp hWord
    rw [List.cons_append, pieces, hc, if_neg Bool.false_ne_true, ih hWord, List.modifyHead_modifyHead]
    rfl

theorem words_space {s : Char} (hs : isSpace s = true) (cs : List Char) :
    words (s :: cs) = words cs := by
  rw [words, pieces, if_pos hs]
  rfl

theorem words_spaces {spaces : List Char} (hSpaces : ∀ c ∈ spaces, isSpace c = true)
    (cs : List Char) : words (spaces ++ cs) = words cs := by
  induction spaces with
  | nil => rfl
  | cons s spaces ih =>
    obtain ⟨hs, hSpaces⟩ := List.forall_mem_cons.mp hSpaces
    rw [List.cons_append, words_space hs, ih hSpaces]

theorem words_word {w : List Char} (hNe : w ≠ []) (hWord : ∀ c ∈ w, isSpace c = false) :
    words w = [w] := by
  have hPieces := pieces_append hWord []
  rw [List.append_nil] at hPieces
  rw [words, hPieces, pieces]
  simp [hNe]

theorem words_word_space {w : List Char} (hNe : w ≠ []) (hWord : ∀ c ∈ w, isSpace c = false)
    {s : Char} (hs : isSpace s = true) (cs : List Char) :
    words (w ++ s :: cs) = w :: words cs := by
  rw [words, pieces_append hWord, pieces, if_pos hs, List.modifyHead_cons, List.append_nil,
    List.filter_cons_of_pos (by simpa using hNe)]
  rfl

theorem splitBars_append {w : List Char} (hWord : ∀ c ∈ w, c ≠ '|') (cs : List Char) :
    splitBars (w ++ '|' :: '|' :: cs) = w :: splitBars cs := by
  induction w with
  | nil => rfl
  | cons c w ih =>
    obtain ⟨hc, hWord⟩ := List.forall_mem_cons.mp hWord
    rw [List.cons_append, splitBars, ih hWord]
    · rfl
    · intro rest hRest
      exact absurd hRest hc

theorem splitBars_of_no_bar {w : List Char} (hWord : ∀ c ∈ w, c ≠ '|') : splitBars w = [w] := by
  induction w with
  | nil => rfl
  | cons c w ih =>
    obtain ⟨hc, hWord⟩ := List.forall_mem_cons.mp hWord
    rw [splitBars, ih hWord]
    · rfl
    · intro rest hRest
      exact absurd hRest hc

/-! ## The decimal of a number -/

/-- The decimal digits a number is written with, without leading zeros. -/
def decimal (n : Nat) : List Char :=
  if n = 0 then ['0'] else (Nat.digits 10 n).reverse.map Nat.digitChar

theorem digitValue_digitChar : ∀ d < 10, digitValue (Nat.digitChar d) = some d := by decide

theorem mem_decimal {n : Nat} {c : Char} (h : c ∈ decimal n) : ∃ d < 10, c = Nat.digitChar d := by
  rw [decimal] at h
  split at h
  · exact ⟨0, by decide, List.mem_singleton.mp h⟩
  · obtain ⟨d, hd, rfl⟩ := List.mem_map.mp h
    exact ⟨d, Nat.digits_lt_base (by decide) (List.mem_reverse.mp hd), rfl⟩

theorem isDigit_of_mem_decimal {n : Nat} {c : Char} (h : c ∈ decimal n) : isDigit c = true := by
  obtain ⟨d, hd, rfl⟩ := mem_decimal h
  rw [isDigit, digitValue_digitChar d hd]
  rfl

theorem decimal_ne_nil (n : Nat) : decimal n ≠ [] := by
  rw [decimal]
  split
  · exact List.cons_ne_nil _ _
  · rename_i hn
    simpa using Nat.digits_ne_nil_iff_ne_zero.mpr hn

/-- A decimal is the lone `0` or starts with one of `1` to `9`. -/
theorem decimal_cases (n : Nat) :
    n = 0 ∧ decimal n = ['0'] ∨
      n ≠ 0 ∧ ∃ d, 1 ≤ d ∧ d < 10 ∧ ∃ ds, decimal n = Nat.digitChar d :: ds := by
  by_cases hn : n = 0
  · exact .inl ⟨hn, if_pos hn⟩
  · refine .inr ⟨hn, ?_⟩
    have hDigits : Nat.digits 10 n ≠ [] := Nat.digits_ne_nil_iff_ne_zero.mpr hn
    obtain ⟨init, d, hSplit⟩ := List.eq_nil_or_concat (Nat.digits 10 n) |>.resolve_left hDigits
    have hLast : (Nat.digits 10 n).getLast hDigits = d := by simp [hSplit]
    refine ⟨d, Nat.one_le_iff_ne_zero.mpr ?_, Nat.digits_lt_base (m := n) (by decide) ?_,
      init.reverse.map Nat.digitChar, ?_⟩
    · exact hLast ▸ Nat.getLast_digit_ne_zero 10 hn
    · exact hLast ▸ List.getLast_mem hDigits
    · rw [decimal, if_neg hn, hSplit]
      simp

theorem natOf_decimal (n : Nat) : natOf (decimal n) = n := by
  rw [decimal]
  split
  · rename_i hn
    rw [hn]
    decide
  · have hFold : ∀ ds : List Nat, (∀ d ∈ ds, d < 10) →
        natOf (ds.reverse.map Nat.digitChar) = Nat.ofDigits 10 ds := by
      intro ds hds
      induction ds with
      | nil => rfl
      | cons d ds ih =>
        obtain ⟨hd, hds⟩ := List.forall_mem_cons.mp hds
        have hRest := ih hds
        rw [natOf] at hRest ⊢
        rw [List.reverse_cons, List.map_append, List.foldl_append, hRest, Nat.ofDigits_cons]
        simp [digitValue_digitChar d hd, Nat.add_comm]
    rw [hFold _ fun d hd => Nat.digits_lt_base (by decide) hd, Nat.ofDigits_digits]

theorem length_decimal_le_iff (n k : Nat) (hk : 0 < k) : (decimal n).length ≤ k ↔ n < 10 ^ k := by
  rw [decimal]
  split
  · rename_i hn
    simp [hn, Nat.one_le_iff_ne_zero, Nat.pos_iff_ne_zero.mp hk]
  · rw [List.length_map, List.length_reverse, Nat.digits_length_le_iff (by decide)]

theorem intOf_decimal (n : Nat) :
    intOf (decimal n) = if n < 10 ^ maxStrDigits then some n else none := by
  simp only [intOf, length_decimal_le_iff n maxStrDigits (by decide), natOf_decimal]

end PyText
