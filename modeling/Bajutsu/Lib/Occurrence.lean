import Mathlib.Data.List.Infix

/-!
# Occurrences in a text that is partly replaced

A text is cut into symbols that are kept and parts that are replaced. A term that cannot overlap what is
written in their place occurs in the new text only where it stood in the old one.
-/

namespace Bajutsu.Occurrence

variable {α : Type}

/-- `term` cannot overlap `out`: neither holds the other, and no end of one begins the other. -/
structure Clear (term out : List α) : Prop where
  notIn : ¬term <:+: out
  notOver : ¬out <:+: term
  notInto : ∀ part ≠ [], part <:+ term → ¬part <+: out
  notOutOf : ∀ part ≠ [], part <:+ out → ¬part <+: term

/-- The term stands at one place in the text. -/
def OnlyAt (term before after : List α) : Prop :=
  ∀ before' after', before ++ term ++ after = before' ++ term ++ after' → before' = before

inductive Piece (α : Type) where
  | kept (x : α)
  | replaced (taken out : List α)
  deriving DecidableEq

namespace Piece

def source : Piece α → List α
  | kept x => [x]
  | replaced taken _ => taken

def result : Piece α → List α
  | kept x => [x]
  | replaced _ out => out

end Piece

open Piece

def source (pieces : List (Piece α)) : List α := pieces.flatMap Piece.source

def result (pieces : List (Piece α)) : List α := pieces.flatMap Piece.result

def allKept (text : List α) : List (Piece α) := text.map kept

@[simp] theorem source_nil : source ([] : List (Piece α)) = [] := rfl

@[simp] theorem result_nil : result ([] : List (Piece α)) = [] := rfl

@[simp] theorem source_cons (p : Piece α) (ps : List (Piece α)) :
    source (p :: ps) = p.source ++ source ps := List.flatMap_cons

@[simp] theorem result_cons (p : Piece α) (ps : List (Piece α)) :
    result (p :: ps) = p.result ++ result ps := List.flatMap_cons

@[simp] theorem source_append (ps qs : List (Piece α)) : source (ps ++ qs) = source ps ++ source qs :=
  List.flatMap_append

@[simp] theorem result_append (ps qs : List (Piece α)) : result (ps ++ qs) = result ps ++ result qs :=
  List.flatMap_append

@[simp] theorem source_allKept (text : List α) : source (allKept text) = text := by
  induction text with
  | nil => rfl
  | cons x text ih => exact congrArg (x :: ·) ih

@[simp] theorem result_allKept (text : List α) : result (allKept text) = text := by
  induction text with
  | nil => rfl
  | cons x text ih => exact congrArg (x :: ·) ih

/-- The term is clear of everything that is written. -/
def ClearOf (term : List α) (pieces : List (Piece α)) : Prop :=
  ∀ taken out, replaced taken out ∈ pieces → Clear term out

theorem ClearOf.tail {term : List α} {p : Piece α} {ps : List (Piece α)} (h : ClearOf term (p :: ps)) :
    ClearOf term ps := fun taken out hMem => h taken out (List.mem_cons_of_mem p hMem)

/-- The rest of a term whose front stands before the pieces is made of kept symbols. -/
theorem rest_kept {front rest after : List α} {pieces : List (Piece α)}
    (hClear : ClearOf (front ++ rest) pieces) (hResult : result pieces = rest ++ after) :
    ∃ later, pieces = allKept rest ++ later ∧ result later = after := by
  induction pieces generalizing front rest with
  | nil =>
    obtain ⟨rfl, rfl⟩ := List.append_eq_nil_iff.mp hResult.symm
    exact ⟨[], rfl, rfl⟩
  | cons p ps ih =>
    cases rest with
    | nil => exact ⟨p :: ps, rfl, hResult⟩
    | cons c rest =>
      cases p with
      | kept x =>
        obtain ⟨rfl, hRest⟩ := List.cons.inj hResult
        have hTail : ClearOf ((front ++ [x]) ++ rest) ps := by
          rw [List.append_assoc]
          exact hClear.tail
        obtain ⟨later, rfl, hLater⟩ := ih hTail hRest
        exact ⟨later, rfl, hLater⟩
      | replaced taken out =>
        have hOut := hClear taken out List.mem_cons_self
        rw [result_cons] at hResult
        exfalso
        rcases List.append_eq_append_iff.mp hResult with ⟨gap, hGap, -⟩ | ⟨gap, hGap, -⟩
        · apply hOut.notOver
          exact ⟨front, gap, by rw [List.append_assoc, hGap]; rfl⟩
        · exact hOut.notInto (c :: rest) (List.cons_ne_nil c rest) (List.suffix_append front _)
            ⟨gap, hGap.symm⟩

/-- An occurrence in the new text is an occurrence among the kept symbols. -/
theorem occurrence_kept {term before after : List α} (hTerm : term ≠ []) {pieces : List (Piece α)}
    (hClear : ClearOf term pieces) (hResult : result pieces = before ++ term ++ after) :
    ∃ earlier later, pieces = earlier ++ allKept term ++ later ∧ result earlier = before ∧
      result later = after := by
  induction pieces generalizing before with
  | nil => simp [hTerm] at hResult
  | cons p ps ih =>
    cases p with
    | kept x =>
      cases before with
      | nil =>
        obtain ⟨later, hPieces, hLater⟩ := @rest_kept _ [] _ _ _ hClear hResult
        exact ⟨[], later, hPieces, rfl, hLater⟩
      | cons b before =>
        obtain ⟨rfl, hRest⟩ := List.cons.inj hResult
        obtain ⟨earlier, later, rfl, hEarlier, hLater⟩ := ih hClear.tail hRest
        exact ⟨kept x :: earlier, later, rfl, congrArg (x :: ·) hEarlier, hLater⟩
    | replaced taken out =>
      have hOut := hClear taken out List.mem_cons_self
      rw [result_cons, List.append_assoc] at hResult
      rcases List.append_eq_append_iff.mp hResult with ⟨gap, hGap, hRest⟩ | ⟨gap, hGap, hRest⟩
      · obtain ⟨earlier, later, rfl, hEarlier, hLater⟩ :=
          ih hClear.tail (hRest.trans (List.append_assoc _ _ _).symm)
        exact ⟨replaced taken out :: earlier, later, rfl, by rw [hGap, ← hEarlier]; rfl, hLater⟩
      · cases gap with
        | nil =>
          obtain ⟨earlier, later, rfl, hEarlier, hLater⟩ :=
            @ih [] hClear.tail (by simpa using hRest.symm)
          refine ⟨replaced taken out :: earlier, later, rfl, ?_, hLater⟩
          rw [result_cons, hEarlier, List.append_nil, ← List.append_nil before]
          exact hGap
        | cons g gap =>
          exfalso
          rcases List.append_eq_append_iff.mp hRest with ⟨inner, hInner, -⟩ | ⟨inner, hInner, -⟩
          · apply hOut.notIn
            exact ⟨before, inner, by rw [List.append_assoc, ← hInner]; exact hGap.symm⟩
          · exact hOut.notOutOf (g :: gap) (List.cons_ne_nil g gap) ⟨before, hGap.symm⟩
              ⟨inner, hInner.symm⟩

/-- No piece is empty. -/
def Solid (pieces : List (Piece α)) : Prop := ∀ p ∈ pieces, p.source ≠ []

/-- Two cuts of a front part of the same pieces at the same length are one. -/
theorem Solid.cut_eq {ps qs ps' qs' : List (Piece α)} (hSolid : Solid (ps ++ qs))
    (hPieces : ps ++ qs = ps' ++ qs') (hSource : source ps = source ps') : ps = ps' := by
  induction ps generalizing ps' with
  | nil =>
    cases ps' with
    | nil => rfl
    | cons p ps' =>
      have hMem : p ∈ [] ++ qs := by
        rw [hPieces]
        exact List.mem_cons_self
      exact absurd (List.append_eq_nil_iff.mp hSource.symm).1 (hSolid p hMem)
  | cons p ps ih =>
    obtain ⟨hp, hSolid⟩ := List.forall_mem_cons.mp hSolid
    cases ps' with
    | nil => exact absurd (List.append_eq_nil_iff.mp hSource).1 hp
    | cons p' ps' =>
      obtain ⟨rfl, hRest⟩ := List.cons.inj hPieces
      rw [source_cons, source_cons] at hSource
      rw [ih hSolid hRest (List.append_cancel_left hSource)]

/-- A term that is kept at its only place stands at one place in the new text. -/
theorem OnlyAt.of_kept {term before after : List α} (hOnly : OnlyAt term before after)
    (hTerm : term ≠ []) {earlier later : List (Piece α)}
    (hClear : ClearOf term (earlier ++ allKept term ++ later))
    (hSolid : Solid (earlier ++ allKept term ++ later)) (hBefore : source earlier = before)
    (hAfter : source later = after) : OnlyAt term (result earlier) (result later) := by
  intro before' after' hText
  have hResult : result (earlier ++ allKept term ++ later) = before' ++ term ++ after' := by
    rw [← hText]
    simp
  obtain ⟨earlier', later', hPieces, rfl, -⟩ := occurrence_kept hTerm hClear hResult
  have hSource := congrArg source hPieces
  simp only [source_append, source_allKept, hBefore, hAfter] at hSource
  have hSame : source earlier' = before := hOnly _ _ hSource
  rw [List.append_assoc] at hSolid
  rw [List.append_assoc, List.append_assoc] at hPieces
  rw [hSolid.cut_eq hPieces (hBefore.trans hSame.symm)]

/-- A term whose only place is replaced is gone from the new text. -/
theorem OnlyAt.of_replaced {term before after : List α} (hOnly : OnlyAt term before after) (hTerm : term ≠ [])
    {earlier later : List (Piece α)} {front back out : List α}
    (hClear : ClearOf term (earlier ++ replaced (front ++ term ++ back) out :: later))
    (hSolid : Solid (earlier ++ replaced (front ++ term ++ back) out :: later))
    (hBefore : source earlier ++ front = before) (hAfter : back ++ source later = after) :
    ¬term <:+: result (earlier ++ replaced (front ++ term ++ back) out :: later) := by
  rintro ⟨before', after', hText⟩
  obtain ⟨earlier', later', hPieces, -, -⟩ := occurrence_kept hTerm hClear hText.symm
  have hSource := congrArg source hPieces
  simp only [source_append, source_cons, source_allKept, Piece.source] at hSource
  have hSame : source earlier' = before := by
    refine hOnly _ (source later') ?_
    rw [← hSource, ← hBefore, ← hAfter]
    simp
  have hHead : ∀ tail, replaced (front ++ term ++ back) out :: later ≠ allKept term ++ tail := by
    intro tail hEq
    cases term with
    | nil => exact hTerm rfl
    | cons c term => cases (List.cons.inj hEq).1
  rw [List.append_assoc earlier'] at hPieces
  rcases List.append_eq_append_iff.mp hPieces with ⟨gap, rfl, hGap⟩ | ⟨gap, rfl, hGap⟩
  · rw [source_append, ← hBefore, List.append_cancel_left_eq] at hSame
    cases gap with
    | nil => exact hHead later' hGap
    | cons p gap =>
      obtain ⟨rfl, -⟩ := List.cons.inj hGap
      have hLength := congrArg List.length hSame
      have hPos := List.length_pos_of_ne_nil hTerm
      simp only [source_cons, Piece.source, List.length_append] at hLength
      omega
  · rw [source_append, List.append_assoc] at hBefore
    have hBoth : source gap ++ front = [] :=
      List.append_cancel_left (hBefore.trans (hSame.symm.trans (List.append_nil _).symm))
    have hNil := (List.append_eq_nil_iff.mp hBoth).1
    cases gap with
    | nil => exact hHead later' (by simpa using hGap.symm)
    | cons p gap =>
      exact hSolid p (by simp) (List.append_eq_nil_iff.mp hNil).1

theorem absent_result {term : List α} (hTerm : term ≠ []) {pieces : List (Piece α)}
    (hClear : ClearOf term pieces) (hAbsent : ¬term <:+: source pieces) :
    ¬term <:+: result pieces := by
  rintro ⟨before, after, hText⟩
  obtain ⟨earlier, later, rfl, -, -⟩ := occurrence_kept hTerm hClear hText.symm
  exact hAbsent ⟨source earlier, source later, by simp⟩

theorem OnlyAt.absent_after {term before after : List α} (h : OnlyAt term before after)
    (hTerm : term ≠ []) : ¬term <:+: after := by
  rintro ⟨front, back, rfl⟩
  have hSame := h (before ++ term ++ front) back (by simp)
  have hLength := congrArg List.length hSame
  have hPos := List.length_pos_of_ne_nil hTerm
  simp only [List.length_append] at hLength
  omega

/-- A term that is clear of the replacement and stood nowhere stands nowhere afterwards. -/
theorem absent_replaced {term before middle after out : List α} (hTerm : term ≠ [])
    (hClear : Clear term out) (hAbsent : ¬term <:+: before ++ middle ++ after) :
    ¬term <:+: before ++ out ++ after := by
  have hPieces : ClearOf term (allKept before ++ replaced middle out :: allKept after) := by
    intro taken out' hMem
    simp only [allKept, List.mem_append, List.mem_map, List.mem_cons, reduceCtorEq, and_false,
      exists_false, Piece.replaced.injEq, false_or, or_false] at hMem
    rw [hMem.2]
    exact hClear
  have hResult := absent_result hTerm hPieces (by simpa [Piece.source] using hAbsent)
  simpa [Piece.result] using hResult

/-- Once its only place is replaced, a term that is clear of the replacement is gone. -/
theorem OnlyAt.absent_replaced_self {term before after out : List α} (h : OnlyAt term before after)
    (hTerm : term ≠ []) (hClear : Clear term out) : ¬term <:+: before ++ out ++ after := by
  have hSolid : Solid (allKept before ++ replaced ([] ++ term ++ []) out :: allKept after) := by
    intro p hMem
    simp only [allKept, List.mem_append, List.mem_map, List.mem_cons] at hMem
    rcases hMem with ⟨x, -, rfl⟩ | rfl | ⟨x, -, rfl⟩
    · exact List.cons_ne_nil x []
    · simpa [Piece.source] using hTerm
    · exact List.cons_ne_nil x []
  have hPieces : ClearOf term (allKept before ++ replaced ([] ++ term ++ []) out :: allKept after) := by
    intro taken out' hMem
    simp only [allKept, List.mem_append, List.mem_map, List.mem_cons, reduceCtorEq, and_false,
      exists_false, Piece.replaced.injEq, false_or, or_false] at hMem
    rw [hMem.2]
    exact hClear
  have hGone := h.of_replaced hTerm hPieces hSolid (by simp) (by simp)
  simpa [Piece.result] using hGone

/-! ## Replacing a term -/

variable [DecidableEq α]

/-- `str.replace`, from the left and without overlaps; `n` is at least the length of the text. -/
def replaceTerm (term out : List α) : Nat → List α → List α
  | 0, text => text
  | _ + 1, [] => []
  | n + 1, x :: xs =>
    if term.isPrefixOf (x :: xs) then out ++ replaceTerm term out n ((x :: xs).drop term.length)
    else x :: replaceTerm term out n xs

def replace (term out text : List α) : List α := replaceTerm term out text.length text

attribute [local simp] replaceTerm

theorem replaceTerm_absent {term out text : List α} (h : ¬term <:+: text) (n : Nat) :
    replaceTerm term out n text = text := by
  induction n generalizing text with
  | zero => rfl
  | succ n ih =>
    cases text with
    | nil => rfl
    | cons x xs =>
      have hHere : ¬term <+: x :: xs := fun hPrefix => h hPrefix.isInfix
      have hLater : ¬term <:+: xs := fun hInfix => h (hInfix.trans (List.suffix_cons x xs).isInfix)
      rw [replaceTerm, if_neg (by simpa using hHere), ih hLater]

theorem replace_absent {term out text : List α} (h : ¬term <:+: text) : replace term out text = text :=
  replaceTerm_absent h text.length

/-- The only place of a term is what is replaced. -/
theorem OnlyAt.replace {term before after : List α} (h : OnlyAt term before after)
    (hTerm : term ≠ []) (out : List α) :
    replace term out (before ++ term ++ after) = before ++ out ++ after := by
  have hAll (n : Nat) (hn : (before ++ term ++ after).length ≤ n) :
      replaceTerm term out n (before ++ term ++ after) = before ++ out ++ after := by
    induction n generalizing before with
    | zero =>
      have hPos := List.length_pos_of_ne_nil hTerm
      simp only [List.length_append] at hn
      omega
    | succ n ih =>
      cases before with
      | nil =>
        obtain ⟨c, rest, rfl⟩ := List.exists_cons_of_ne_nil hTerm
        have hPrefix : (c :: rest).isPrefixOf (c :: (rest ++ after)) = true := by simp
        have hDrop : (c :: (rest ++ after)).drop (c :: rest).length = after := by simp
        rw [List.nil_append, List.nil_append, List.cons_append, replaceTerm, if_pos hPrefix, hDrop,
          replaceTerm_absent (h.absent_after hTerm)]
      | cons b before =>
        have hHere : ¬term <+: b :: (before ++ term ++ after) := by
          rintro ⟨back, hBack⟩
          have hSame := h [] back (by simpa using hBack.symm)
          cases hSame
        have hLater : OnlyAt term before after := by
          intro before' after' hEq
          have hSame := h (b :: before') after' (congrArg (b :: ·) hEq)
          exact (List.cons.inj hSame).2
        rw [List.cons_append, List.cons_append, replaceTerm, if_neg (by simpa using hHere),
          ih hLater (by simpa using hn)]
        rfl
  exact hAll _ (Nat.le_refl _)

/-! ## The pieces of a replacement -/

/-- How `replaceTerm` cuts the text. -/
def replacePieces (term out : List α) : Nat → List α → List (Piece α)
  | 0, text => allKept text
  | _ + 1, [] => []
  | n + 1, x :: xs =>
    if term.isPrefixOf (x :: xs) then
      replaced term out :: replacePieces term out n ((x :: xs).drop term.length)
    else kept x :: replacePieces term out n xs

attribute [local simp] replacePieces

theorem result_replacePieces (term out : List α) (n : Nat) (text : List α) :
    result (replacePieces term out n text) = replaceTerm term out n text := by
  induction n generalizing text with
  | zero => exact result_allKept text
  | succ n ih =>
    cases text with
    | nil => rfl
    | cons x xs =>
      rw [replacePieces, replaceTerm]
      split
      · rw [result_cons, ih]
        rfl
      · rw [result_cons, ih]
        rfl

theorem source_replacePieces (term out : List α) (n : Nat) (text : List α) :
    source (replacePieces term out n text) = text := by
  induction n generalizing text with
  | zero => exact source_allKept text
  | succ n ih =>
    cases text with
    | nil => rfl
    | cons x xs =>
      rw [replacePieces]
      split
      · rename_i hPrefix
        obtain ⟨rest, hRest⟩ := List.isPrefixOf_iff_prefix.mp hPrefix
        rw [source_cons, ih, ← hRest, List.drop_left]
        rfl
      · rw [source_cons, ih]
        rfl

theorem replacePieces_clearOf {term out other : List α} (h : Clear other out) (n : Nat) (text : List α) :
    ClearOf other (replacePieces term out n text) := by
  intro taken written hMem
  induction n generalizing text with
  | zero => simp [replacePieces, allKept] at hMem
  | succ n ih =>
    cases text with
    | nil => cases hMem
    | cons x xs =>
      rw [replacePieces] at hMem
      split at hMem
      · obtain hHere | hLater := List.mem_cons.mp hMem
        · cases hHere
          exact h
        · exact ih _ hLater
      · obtain hHere | hLater := List.mem_cons.mp hMem
        · cases hHere
        · exact ih _ hLater

/-- The scan keeps no occurrence of the term. -/
theorem replacePieces_takes {term out text : List α} (hTerm : term ≠ []) {n : Nat} (hn : text.length ≤ n)
    (earlier later : List (Piece α)) : replacePieces term out n text ≠ earlier ++ allKept term ++ later := by
  induction n generalizing text earlier with
  | zero =>
    intro hPieces
    have hNil := List.length_eq_zero_iff.mp (Nat.le_zero.mp hn)
    subst hNil
    have hKept := (List.append_eq_nil_iff.mp (List.append_eq_nil_iff.mp hPieces.symm).1).2
    exact hTerm (List.map_eq_nil_iff.mp hKept)
  | succ n ih =>
    obtain ⟨c, rest, rfl⟩ := List.exists_cons_of_ne_nil hTerm
    intro hPieces
    cases text with
    | nil =>
      have hKept := (List.append_eq_nil_iff.mp (List.append_eq_nil_iff.mp hPieces.symm).1).2
      cases hKept
    | cons x xs =>
      have hSource := congrArg source hPieces
      rw [source_replacePieces, source_append, source_append, source_allKept] at hSource
      rw [replacePieces] at hPieces
      split at hPieces
      · cases earlier with
        | nil => cases (List.cons.inj hPieces).1
        | cons p earlier =>
          refine ih ?_ earlier (List.cons.inj hPieces).2
          rw [List.length_drop]
          simp only [List.length_cons] at hn ⊢
          omega
      · rename_i hHere
        cases earlier with
        | nil => exact hHere (List.isPrefixOf_iff_prefix.mpr ⟨source later, hSource.symm⟩)
        | cons p earlier => exact ih (Nat.le_of_succ_le_succ hn) earlier (List.cons.inj hPieces).2

/-- A term that is clear of its replacement is gone once it is replaced. -/
theorem replace_removes {term out : List α} (hTerm : term ≠ []) (hClear : Clear term out) (text : List α) :
    ¬term <:+: replace term out text := by
  rintro ⟨before, after, hText⟩
  have hResult : result (replacePieces term out text.length text) = before ++ term ++ after := by
    rw [result_replacePieces, hText]
    rfl
  obtain ⟨earlier, later, hPieces, -, -⟩ :=
    occurrence_kept hTerm (replacePieces_clearOf hClear text.length text) hResult
  exact replacePieces_takes hTerm (Nat.le_refl _) earlier later hPieces

theorem absent_replace {term out other : List α} (hOther : other ≠ []) (hClear : Clear other out) {text : List α}
    (h : ¬other <:+: text) : ¬other <:+: replace term out text := by
  have hResult := absent_result hOther (@replacePieces_clearOf _ _ term out other hClear text.length text)
    (by rwa [source_replacePieces])
  rwa [result_replacePieces] at hResult

end Bajutsu.Occurrence
