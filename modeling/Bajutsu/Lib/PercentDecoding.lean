import Mathlib.Data.List.Basic

/-!
# Percent-decoding

Escapes stand for bytes, and runs of bytes are read as UTF-8, where what is no character is replaced. A character that
can be no part of an escape, and is ASCII, divides a text whose parts are then decoded each for itself.
-/

namespace Bajutsu.PercentDecoding

/-- A byte, or a character that is not ASCII and stands for itself. -/
inductive Token where
  | byte (b : Nat)
  | char (c : Char)

def hexValue (c : Char) : Option Nat :=
  if '0' ≤ c ∧ c ≤ '9' then some (c.toNat - '0'.toNat)
  else if 'a' ≤ c ∧ c ≤ 'f' then some (c.toNat - 'a'.toNat + 10)
  else if 'A' ≤ c ∧ c ≤ 'F' then some (c.toNat - 'A'.toNat + 10)
  else none

def token (c : Char) : Token := if c.toNat < 0x80 then .byte c.toNat else .char c

def tokens : List Char → List Token
  | [] => []
  | [c] => [token c]
  | [c, d] => [token c, token d]
  | c :: a :: b :: text =>
    if c = '%' then
      match hexValue a, hexValue b with
      | some x, some y => .byte (16 * x + y) :: tokens text
      | _, _ => token c :: tokens (a :: b :: text)
    else token c :: tokens (a :: b :: text)

/-- A sequence of bytes that has begun: its code so far, the bounds of the next byte, and how many follow that. -/
structure Pending where
  code : Nat
  low : Nat
  high : Nat
  more : Nat
  hLow : 0x80 ≤ low

def lead (b : Nat) : Option Pending :=
  if 0xC2 ≤ b ∧ b ≤ 0xDF then some ⟨b - 0xC0, 0x80, 0xBF, 0, by decide⟩
  else if b = 0xE0 then some ⟨0, 0xA0, 0xBF, 1, by decide⟩
  else if b = 0xED then some ⟨0xD, 0x80, 0x9F, 1, by decide⟩
  else if 0xE1 ≤ b ∧ b ≤ 0xEF then some ⟨b - 0xE0, 0x80, 0xBF, 1, by decide⟩
  else if b = 0xF0 then some ⟨0, 0x90, 0xBF, 2, by decide⟩
  else if 0xF1 ≤ b ∧ b ≤ 0xF3 then some ⟨b - 0xF0, 0x80, 0xBF, 2, by decide⟩
  else if b = 0xF4 then some ⟨4, 0x80, 0x8F, 2, by decide⟩
  else none

def replacement : Char := Char.ofNat 0xFFFD

def first (b : Nat) : List Char × Option Pending :=
  if b < 0x80 then ([Char.ofNat b], none)
  else
    match lead b with
    | some pending => ([], some pending)
    | none => ([replacement], none)

def flush : Option Pending → List Char
  | none => []
  | some _ => [replacement]

/-- The characters that a token completes, and the sequence that it begins or goes on with. -/
def feed : Option Pending → Token → List Char × Option Pending
  | pending, .char c => (flush pending ++ [c], none)
  | none, .byte b => first b
  | some p, .byte b =>
    if p.low ≤ b ∧ b ≤ p.high then
      let code := p.code * 64 + (b - 0x80)
      if p.more = 0 then ([Char.ofNat code], none) else ([], some ⟨code, 0x80, 0xBF, p.more - 1, Nat.le_refl _⟩)
    else (replacement :: (first b).1, (first b).2)

def decode (pending : Option Pending) : List Token → List Char
  | [] => flush pending
  | t :: ts => (feed pending t).1 ++ decode (feed pending t).2 ts

/-- `urllib.parse.unquote`. -/
def unquote (text : List Char) : List Char := if '%' ∈ text then decode none (tokens text) else text

variable {c : Char} {a b text : List Char}

/-- A character of the text ends the sequence before it. -/
theorem feed_token (pending : Option Pending) (c : Char) : feed pending (token c) = (flush pending ++ [c], none) := by
  rw [token]
  split
  · rename_i hAscii
    cases pending with
    | none =>
      rw [feed, first, if_pos hAscii, Char.ofNat_toNat]
      rfl
    | some p =>
      have hLow := p.hLow
      rw [feed, if_neg (by omega), first, if_pos hAscii, Char.ofNat_toNat]
      rfl
  · cases pending <;> rfl

theorem decode_token (pending : Option Pending) (c : Char) (ts : List Token) :
    decode pending (token c :: ts) = flush pending ++ c :: decode none ts := by
  rw [decode, feed_token, List.append_assoc]
  rfl

theorem decode_append (pending : Option Pending) (ts us : List Token) (c : Char) :
    decode pending (ts ++ token c :: us) = decode pending ts ++ c :: decode none us := by
  induction ts generalizing pending with
  | nil => exact decode_token pending c us
  | cons t ts ih => rw [List.cons_append, decode, ih, decode, List.append_assoc]

/-- A character that is part of no escape. -/
def Divides (c : Char) : Prop := c ≠ '%' ∧ hexValue c = none

theorem tokens_cons (h : c ≠ '%') (text : List Char) : tokens (c :: text) = token c :: tokens text := by
  match text with
  | [] => rfl
  | [_] => rfl
  | a :: b :: text => rw [tokens, if_neg h]

theorem tokens_append (h : Divides c) (a b : List Char) : tokens (a ++ c :: b) = tokens a ++ token c :: tokens b := by
  fun_induction tokens a with
  | case1 => exact tokens_cons h.1 b
  | case2 d =>
    cases b with
    | nil => rfl
    | cons e b =>
      rw [List.cons_append, List.nil_append, tokens, ← tokens_cons h.1]
      split
      · rw [h.2]
        cases hexValue e <;> rfl
      · rfl
  | case3 d e =>
    rw [List.cons_append, List.cons_append, List.nil_append, tokens, h.2]
    have hRest : tokens (e :: c :: b) = token e :: token c :: tokens b := by
      cases b with
      | nil => rfl
      | cons f b =>
        rw [tokens, h.2]
        split
        · cases hexValue f <;> rw [tokens_cons h.1]
        · rw [tokens_cons h.1]
    rw [hRest]
    split
    · cases hexValue e <;> rfl
    · rfl
  | case4 d e text x y hx hy ih =>
    rw [List.cons_append, List.cons_append, List.cons_append, tokens, if_pos rfl, hx, hy, ih]
    rfl
  | case5 d e text hNone ih =>
    rw [List.cons_append, List.cons_append, List.cons_append, tokens, if_pos rfl]
    split
    · rename_i x y hx hy
      exact (hNone x y hx hy).elim
    · exact congrArg _ ih
  | case6 d e f text hNe ih =>
    rw [List.cons_append, List.cons_append, List.cons_append, tokens, if_neg hNe]
    exact congrArg _ ih

theorem decode_plain (text : List Char) (h : '%' ∉ text) : decode none (tokens text) = text := by
  induction text with
  | nil => rfl
  | cons c text ih =>
    rw [List.mem_cons, not_or] at h
    rw [tokens_cons (Ne.symm h.1), decode_token, ih h.2]
    rfl

theorem unquote_eq (text : List Char) : unquote text = decode none (tokens text) := by
  rw [unquote]
  split
  · rfl
  · rename_i h
    exact (decode_plain text h).symm

theorem unquote_plain (h : '%' ∉ text) : unquote text = text := if_neg h

/-- The parts of a text on the sides of a character that divides it are decoded each for itself. -/
theorem unquote_append (h : Divides c) (a b : List Char) : unquote (a ++ c :: b) = unquote a ++ c :: unquote b := by
  rw [unquote_eq, unquote_eq, unquote_eq, tokens_append h, decode_append]

theorem unquote_cons (h : Divides c) (text : List Char) : unquote (c :: text) = c :: unquote text :=
  unquote_append h [] text

theorem divides_slash : Divides '/' := ⟨by decide, by decide⟩

theorem divides_semicolon : Divides ';' := ⟨by decide, by decide⟩

end Bajutsu.PercentDecoding
