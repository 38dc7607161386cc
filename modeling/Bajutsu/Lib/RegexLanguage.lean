import Bajutsu.Lib.Regex

/-!
# The texts that a pattern takes

Where a pattern asks about no word boundary, what its matches take does not depend on where they begin: the positions
that they end at are those behind a text of the pattern's language.
-/

namespace Bajutsu.Regex

variable {α : Type} {R : Reading α}

/-- The pattern takes this text. -/
inductive Accepts (R : Reading α) : Re → List α → Prop
  | eps : Accepts R .eps []
  | cls {holds x} (h : holds (R.char x) = true) : Accepts R (.cls holds) [x]
  | wordB : Accepts R .wordB []
  | seq {a b xs ys} (hFirst : Accepts R a xs) (hSecond : Accepts R b ys) : Accepts R (.seq a b) (xs ++ ys)
  | left {a b xs} (h : Accepts R a xs) : Accepts R (.alt a b) xs
  | right {a b xs} (h : Accepts R b xs) : Accepts R (.alt a b) xs
  | done {greedy a} : Accepts R (.star greedy a) []
  | more {greedy a xs ys} (hFirst : Accepts R a xs) (hRest : Accepts R (.star greedy a) ys) :
      Accepts R (.star greedy a) (xs ++ ys)

/-! ## What a match takes is in the language -/

theorem accepts_of_rounds {a : Re} (hStep : ∀ {st fin}, fin ∈ run R a st → ∃ taken, Accepts R a taken ∧ st.rest = taken ++ fin.rest)
    {greedy : Bool} {n : Nat} {st fin : At α} (h : fin ∈ rounds (run R a) greedy n st) :
    ∃ taken, Accepts R (.star greedy a) taken ∧ st.rest = taken ++ fin.rest := by
  induction n generalizing st with
  | zero =>
    obtain rfl := List.mem_singleton.mp h
    exact ⟨[], .done, rfl⟩
  | succ n ih =>
    obtain rfl | ⟨next, hNext, -, hFin⟩ := mem_rounds_succ.mp h
    · exact ⟨[], .done, rfl⟩
    · obtain ⟨front, hFront, hTaken⟩ := hStep hNext
      obtain ⟨back, hBack, hRest⟩ := ih hFin
      exact ⟨front ++ back, .more hFront hBack, by rw [hTaken, hRest, List.append_assoc]⟩

theorem accepts_of_run {r : Re} {st fin : At α} (h : fin ∈ run R r st) :
    ∃ taken, Accepts R r taken ∧ st.rest = taken ++ fin.rest := by
  induction r generalizing st fin with
  | eps =>
    obtain rfl := List.mem_singleton.mp h
    exact ⟨[], .eps, rfl⟩
  | cls holds =>
    obtain ⟨w, _ | ⟨x, rest⟩⟩ := st
    · cases h
    · simp only [run] at h
      split at h
      · rename_i hHolds
        obtain rfl := List.mem_singleton.mp h
        exact ⟨[x], .cls hHolds, rfl⟩
      · cases h
  | wordB =>
    simp only [run] at h
    split at h
    · cases h
    · obtain rfl := List.mem_singleton.mp h
      exact ⟨[], .wordB, rfl⟩
  | seq a b iha ihb =>
    obtain ⟨mid, hMid, hFin⟩ := List.mem_flatMap.mp h
    obtain ⟨front, hFront, hTaken⟩ := iha hMid
    obtain ⟨back, hBack, hRest⟩ := ihb hFin
    exact ⟨front ++ back, .seq hFront hBack, by rw [hTaken, hRest, List.append_assoc]⟩
  | alt a b iha ihb =>
    obtain h | h := List.mem_append.mp h
    · obtain ⟨taken, hTaken, hRest⟩ := iha h
      exact ⟨taken, .left hTaken, hRest⟩
    · obtain ⟨taken, hTaken, hRest⟩ := ihb h
      exact ⟨taken, .right hTaken, hRest⟩
  | star greedy a iha => exact accepts_of_rounds iha h

/-! ## A text of the language is taken wherever it stands -/

theorem mem_run_star {greedy : Bool} {a : Re} {st fin : At α} :
    fin ∈ run R (.star greedy a) st ↔
      fin = st ∨ ∃ next ∈ run R a st, next.rest.length < st.rest.length ∧ fin ∈ run R (.star greedy a) next := by
  have hFuel (st : At α) {n : Nat} (hn : st.rest.length ≤ n) : run R (.star greedy a) st = rounds (run R a) greedy n st :=
    rounds_fuel (Nat.le_refl _) hn
  rw [hFuel st (Nat.le_succ _), mem_rounds_succ]
  apply or_congr_right
  apply exists_congr
  intro next
  apply and_congr_right
  intro _
  apply and_congr_right
  intro hLess
  rw [hFuel next (Nat.le_of_lt hLess)]

theorem run_of_accepts {r : Re} {taken : List α} (h : Accepts R r taken) (hFree : r.free = true) (w : Bool) (rest : List α) :
    ∃ fin ∈ run R r ⟨w, taken ++ rest⟩, fin.rest = rest := by
  induction h generalizing w rest with
  | eps => exact ⟨_, List.mem_singleton.mpr rfl, rfl⟩
  | @cls holds x h =>
    refine ⟨⟨R.word (R.char x), rest⟩, ?_, rfl⟩
    simp [run, h]
  | wordB => cases hFree
  | @seq a b xs ys _ _ ihFirst ihSecond =>
    obtain ⟨hFirst, hSecond⟩ := Bool.and_eq_true_iff.mp hFree
    obtain ⟨mid, hMid, hRest⟩ := ihFirst hFirst w (ys ++ rest)
    obtain ⟨fin, hFin, hEnd⟩ := ihSecond hSecond mid.afterWord rest
    refine ⟨fin, ?_, hEnd⟩
    rw [List.append_assoc]
    apply List.mem_flatMap.mpr
    refine ⟨mid, hMid, ?_⟩
    rw [← hRest] at hFin
    exact hFin
  | left _ ih =>
    obtain ⟨fin, hFin, hEnd⟩ := ih (Bool.and_eq_true_iff.mp hFree).1 w rest
    exact ⟨fin, List.mem_append_left _ hFin, hEnd⟩
  | right _ ih =>
    obtain ⟨fin, hFin, hEnd⟩ := ih (Bool.and_eq_true_iff.mp hFree).2 w rest
    exact ⟨fin, List.mem_append_right _ hFin, hEnd⟩
  | done => exact ⟨_, mem_run_star.mpr (.inl rfl), rfl⟩
  | @more greedy a xs ys _ _ ihFirst ihRest =>
    cases xs with
    | nil => exact ihRest hFree w rest
    | cons x xs =>
      obtain ⟨next, hNext, hRest⟩ := ihFirst hFree w (ys ++ rest)
      obtain ⟨fin, hFin, hEnd⟩ := ihRest hFree next.afterWord rest
      refine ⟨fin, mem_run_star.mpr (.inr ⟨next, ?_, ?_, ?_⟩), hEnd⟩
      · rw [List.append_assoc]
        exact hNext
      · rw [hRest]
        simp only [List.length_append, List.length_cons]
        omega
      · rw [← hRest] at hFin
        exact hFin

/-! ## The parts of a pattern -/

theorem accepts_seq {a b : Re} {text : List α} :
    Accepts R (.seq a b) text ↔ ∃ xs ys, Accepts R a xs ∧ Accepts R b ys ∧ text = xs ++ ys := by
  constructor
  · intro h
    cases h with
    | seq hFirst hSecond => exact ⟨_, _, hFirst, hSecond, rfl⟩
  · rintro ⟨xs, ys, hFirst, hSecond, rfl⟩
    exact .seq hFirst hSecond

theorem accepts_char {c : Char} {text : List α} : Accepts R (.char c) text ↔ ∃ x, R.char x = c ∧ text = [x] := by
  constructor
  · intro h
    cases h with
    | cls h => exact ⟨_, of_decide_eq_true h, rfl⟩
  · rintro ⟨x, h, rfl⟩
    exact .cls (decide_eq_true h)

theorem accepts_text {s : String} {text : List α} : Accepts R (.text s) text ↔ text.map R.char = s.toList := by
  rw [Re.text]
  generalize s.toList = cs
  induction cs generalizing text with
  | nil =>
    rw [List.foldr_nil, List.map_eq_nil_iff]
    constructor
    · intro h
      cases h
      rfl
    · rintro rfl
      exact .eps
  | cons c cs ih =>
    rw [List.foldr_cons, accepts_seq, List.map_eq_cons_iff]
    constructor
    · rintro ⟨xs, ys, hFirst, hSecond, rfl⟩
      obtain ⟨x, hx, rfl⟩ := accepts_char.mp hFirst
      exact ⟨x, ys, rfl, hx, ih.mp hSecond⟩
    · rintro ⟨x, ys, rfl, hx, hys⟩
      exact ⟨[x], ys, accepts_char.mpr ⟨x, hx, rfl⟩, ih.mpr hys, rfl⟩

theorem accepts_star_cls {greedy : Bool} {holds : Char → Bool} {text : List α} :
    Accepts R (.star greedy (.cls holds)) text ↔ ∀ x ∈ text, holds (R.char x) = true := by
  constructor
  · intro h
    generalize hr : Re.star greedy (.cls holds) = r at h
    induction h with
    | done => exact fun _ hMem => nomatch hMem
    | more hFirst _ _ ih =>
      cases hr
      cases hFirst with
      | cls hHolds => exact List.forall_mem_cons.mpr ⟨hHolds, ih rfl⟩
    | _ => cases hr
  · intro h
    induction text with
    | nil => exact .done
    | cons x text ih =>
      obtain ⟨hx, hRest⟩ := List.forall_mem_cons.mp h
      exact .more (.cls hx) (ih hRest)

/-- One symbol of the class or more. -/
theorem accepts_some_cls {holds : Char → Bool} {text : List α} :
    Accepts R (.atLeast 1 (.cls holds)) text ↔ text ≠ [] ∧ ∀ x ∈ text, holds (R.char x) = true := by
  rw [Re.atLeast, Re.exactly, Re.exactly, accepts_seq]
  constructor
  · rintro ⟨xs, ys, hFirst, hRest, rfl⟩
    obtain ⟨_, _, hOne, hNone, rfl⟩ := accepts_seq.mp hFirst
    cases hOne with
    | cls hHolds =>
      cases hNone
      exact ⟨by simp, List.forall_mem_cons.mpr ⟨hHolds, accepts_star_cls.mp hRest⟩⟩
  · rintro ⟨hNe, hAll⟩
    cases text with
    | nil => exact absurd rfl hNe
    | cons x text =>
      obtain ⟨hx, hRest⟩ := List.forall_mem_cons.mp hAll
      exact ⟨[x], text, accepts_seq.mpr ⟨[x], [], .cls hx, .eps, rfl⟩, accepts_star_cls.mpr hRest, rfl⟩

theorem accepts_optional {a : Re} {text : List α} : Accepts R (.optional a) text ↔ Accepts R a text ∨ text = [] := by
  constructor
  · intro h
    cases h with
    | left h => exact .inl h
    | right h =>
      cases h
      exact .inr rfl
  · rintro (h | rfl)
    · exact .left h
    · exact .right .eps

end Bajutsu.Regex
