import Mathlib.Data.List.Basic

/-!
# Backtracking regular expressions

A pattern lists the positions its matches end at, in the order a backtracking engine tries them, so
the first one is the match the engine reports. Texts are lists over any type of symbols that are read
as characters: the same patterns run over plain characters and over characters that carry a mark.
-/

namespace Bajutsu.Regex

inductive Re where
  | eps
  | cls (holds : Char → Bool)
  | wordB
  | seq (first second : Re)
  | alt (left right : Re)
  | star (greedy : Bool) (body : Re)

namespace Re

def char (c : Char) : Re := cls (· = c)

def text (s : String) : Re := s.toList.foldr (fun c r => seq (char c) r) eps

def exactly : Nat → Re → Re
  | 0, _ => eps
  | n + 1, r => seq r (exactly n r)

def atLeast (n : Nat) (r : Re) : Re := seq (exactly n r) (star true r)

def optional (r : Re) : Re := alt r eps

/-- Some class of the pattern holds of the character. -/
def accepts : Re → Char → Bool
  | eps, _ => false
  | cls holds, c => holds c
  | wordB, _ => false
  | seq a b, c => a.accepts c || b.accepts c
  | alt a b, c => a.accepts c || b.accepts c
  | star _ a, c => a.accepts c

end Re

/-- How symbols are read: as characters, some of which are word characters. -/
structure Reading (α : Type) where
  char : α → Char
  word : Char → Bool

/-- A position: whether a word character stands before it, and the text from it on. -/
structure At (α : Type) where
  afterWord : Bool
  rest : List α
  deriving DecidableEq

variable {α : Type}

namespace At

def append (st : At α) (more : List α) : At α := ⟨st.afterWord, st.rest ++ more⟩

@[simp] theorem append_rest (st : At α) (more : List α) : (st.append more).rest = st.rest ++ more := rfl

def map {β : Type} (f : α → β) (st : At α) : At β := ⟨st.afterWord, st.rest.map f⟩

@[simp] theorem map_rest {β : Type} (f : α → β) (st : At α) : (st.map f).rest = st.rest.map f := rfl

end At

/-- The ends of zero or more rounds; a round that takes nothing ends the repetition. -/
def rounds (step : At α → List (At α)) (greedy : Bool) : Nat → At α → List (At α)
  | 0, st => [st]
  | n + 1, st =>
    let more := (step st).flatMap fun next =>
      if next.rest.length < st.rest.length then rounds step greedy n next else []
    if greedy then more ++ [st] else st :: more

variable (R : Reading α)

/-- Whether a word character comes next. -/
def beforeWord : List α → Bool
  | [] => false
  | x :: _ => R.word (R.char x)

def run : Re → At α → List (At α)
  | .eps, st => [st]
  | .cls holds, st =>
    match st.rest with
    | [] => []
    | x :: rest => if holds (R.char x) then [⟨R.word (R.char x), rest⟩] else []
  | .wordB, st => if st.afterWord = beforeWord R st.rest then [] else [st]
  | .seq a b, st => (run a st).flatMap (run b)
  | .alt a b, st => run a st ++ run b st
  | .star greedy a, st => rounds (run a) greedy st.rest.length st

/-! ## What a match takes -/

theorem rounds_fuel {step : At α → List (At α)} {greedy : Bool} {st : At α} {n m : Nat}
    (hn : st.rest.length ≤ n) (hm : st.rest.length ≤ m) :
    rounds step greedy n st = rounds step greedy m st := by
  induction n generalizing st m with
  | zero =>
    have hEmpty : st.rest.length = 0 := Nat.le_zero.mp hn
    cases m with
    | zero => rfl
    | succ m => cases greedy <;> simp [rounds, hEmpty]
  | succ n ih =>
    cases m with
    | zero =>
      have hEmpty : st.rest.length = 0 := Nat.le_zero.mp hm
      cases greedy <;> simp [rounds, hEmpty]
    | succ m =>
      have hMore : ∀ next : At α,
          (if next.rest.length < st.rest.length then rounds step greedy n next else []) =
            if next.rest.length < st.rest.length then rounds step greedy m next else [] := by
        intro next
        split
        · exact ih (by omega) (by omega)
        · rfl
      simp only [rounds, hMore]

theorem mem_rounds_succ {step : At α → List (At α)} {greedy : Bool} {n : Nat} {st fin : At α} :
    fin ∈ rounds step greedy (n + 1) st ↔
      fin = st ∨ ∃ next ∈ step st, next.rest.length < st.rest.length ∧
        fin ∈ rounds step greedy n next := by
  have hMore : fin ∈ ((step st).flatMap fun next =>
      if next.rest.length < st.rest.length then rounds step greedy n next else []) ↔
        ∃ next ∈ step st, next.rest.length < st.rest.length ∧ fin ∈ rounds step greedy n next := by
    rw [List.mem_flatMap]
    refine exists_congr fun next => and_congr_right fun _ => ?_
    split
    · rename_i hLess
      simp [hLess]
    · rename_i hLess
      simp [hLess]
  cases greedy with
  | false => rw [rounds, if_neg Bool.false_ne_true, List.mem_cons, hMore]
  | true => rw [rounds, if_pos rfl, List.mem_append, hMore, List.mem_singleton, or_comm]

theorem rounds_taken {step : At α → List (At α)} {P : α → Prop}
    (hStep : ∀ {st fin}, fin ∈ step st → ∃ taken, st.rest = taken ++ fin.rest ∧ ∀ x ∈ taken, P x)
    {greedy : Bool} {n : Nat} {st fin : At α} (h : fin ∈ rounds step greedy n st) :
    ∃ taken, st.rest = taken ++ fin.rest ∧ ∀ x ∈ taken, P x := by
  induction n generalizing st with
  | zero =>
    obtain rfl := List.mem_singleton.mp h
    exact ⟨[], rfl, by simp⟩
  | succ n ih =>
    rcases mem_rounds_succ.mp h with rfl | ⟨next, hNext, -, hFin⟩
    · exact ⟨[], rfl, by simp⟩
    · obtain ⟨front, hFront, hFrontAll⟩ := hStep hNext
      obtain ⟨back, hBack, hBackAll⟩ := ih hFin
      refine ⟨front ++ back, by rw [hFront, hBack, List.append_assoc], fun x hx => ?_⟩
      exact (List.mem_append.mp hx).elim (hFrontAll x) (hBackAll x)

/-- A match takes a front part of the text, all of it in the pattern's classes. -/
theorem run_taken {r : Re} {st fin : At α} (h : fin ∈ run R r st) :
    ∃ taken, st.rest = taken ++ fin.rest ∧ ∀ x ∈ taken, r.accepts (R.char x) = true := by
  induction r generalizing st fin with
  | eps =>
    obtain rfl := List.mem_singleton.mp h
    exact ⟨[], rfl, by simp⟩
  | cls holds =>
    obtain ⟨w, _ | ⟨x, rest⟩⟩ := st
    · cases h
    · simp only [run] at h
      split at h
      · rename_i hHolds
        obtain rfl := List.mem_singleton.mp h
        exact ⟨[x], rfl, by simpa [Re.accepts] using hHolds⟩
      · cases h
  | wordB =>
    rw [run] at h
    split at h
    · cases h
    · obtain rfl := List.mem_singleton.mp h
      exact ⟨[], rfl, by simp⟩
  | seq a b iha ihb =>
    obtain ⟨mid, hMid, hFin⟩ := List.mem_flatMap.mp h
    obtain ⟨front, hFront, hAcceptsA⟩ := iha hMid
    obtain ⟨back, hBack, hAcceptsB⟩ := ihb hFin
    refine ⟨front ++ back, by rw [hFront, hBack, List.append_assoc], fun x hx => ?_⟩
    rw [Re.accepts, Bool.or_eq_true]
    exact (List.mem_append.mp hx).imp (hAcceptsA x) (hAcceptsB x)
  | alt a b iha ihb =>
    rcases List.mem_append.mp h with h | h
    · obtain ⟨taken, hTaken, hAccepts⟩ := iha h
      exact ⟨taken, hTaken, fun x hx => by rw [Re.accepts, hAccepts x hx, Bool.true_or]⟩
    · obtain ⟨taken, hTaken, hAccepts⟩ := ihb h
      exact ⟨taken, hTaken, fun x hx => by rw [Re.accepts, hAccepts x hx, Bool.or_true]⟩
  | star greedy a iha => exact rounds_taken iha h

/-! ## Barriers -/

/-- A symbol no match of the pattern reaches over and no word boundary looks past. -/
structure Barrier (r : Re) (b : α) : Prop where
  rejected : r.accepts (R.char b) = false
  nonword : R.word (R.char b) = false

variable {R}

theorem Barrier.seq_left {a b : Re} {x : α} (h : Barrier R (.seq a b) x) : Barrier R a x :=
  ⟨(Bool.or_eq_false_iff.mp h.rejected).1, h.nonword⟩

theorem Barrier.seq_right {a b : Re} {x : α} (h : Barrier R (.seq a b) x) : Barrier R b x :=
  ⟨(Bool.or_eq_false_iff.mp h.rejected).2, h.nonword⟩

theorem Barrier.alt_left {a b : Re} {x : α} (h : Barrier R (.alt a b) x) : Barrier R a x :=
  ⟨(Bool.or_eq_false_iff.mp h.rejected).1, h.nonword⟩

theorem Barrier.alt_right {a b : Re} {x : α} (h : Barrier R (.alt a b) x) : Barrier R b x :=
  ⟨(Bool.or_eq_false_iff.mp h.rejected).2, h.nonword⟩

theorem Barrier.star {greedy : Bool} {a : Re} {x : α} (h : Barrier R (.star greedy a) x) :
    Barrier R a x := ⟨h.rejected, h.nonword⟩

theorem rounds_append {step : At α → List (At α)} {greedy : Bool} {more : List α}
    (hStep : ∀ st, step (st.append more) = (step st).map fun st => st.append more) {n : Nat}
    (st : At α) :
    rounds step greedy (n + more.length) (st.append more) =
      (rounds step greedy (n + more.length) st).map fun st => st.append more := by
  generalize n + more.length = m
  induction m generalizing st with
  | zero => rfl
  | succ m ih =>
    have hMore : ((step (st.append more)).flatMap fun next =>
        if next.rest.length < (st.append more).rest.length then rounds step greedy m next else []) =
          ((step st).flatMap fun next =>
            if next.rest.length < st.rest.length then rounds step greedy m next else []).map
              fun st => st.append more := by
      rw [hStep, List.flatMap_map, List.map_flatMap]
      refine List.flatMap_congr fun next _ => ?_
      simp only [At.append_rest, List.length_append, Nat.add_lt_add_iff_right]
      split
      · exact ih next
      · rfl
    cases greedy with
    | false => simp only [rounds, hMore, Bool.false_eq_true, if_false, List.map_cons]
    | true => simp only [rounds, hMore, if_true, List.map_append, List.map_cons, List.map_nil]

/-- Matches in front of a barrier are the matches of the text that ends there. -/
theorem run_append {r : Re} {b : α} (h : Barrier R r b) (st : At α) (after : List α) :
    run R r (st.append (b :: after)) = (run R r st).map fun st => st.append (b :: after) := by
  induction r generalizing st with
  | eps => rfl
  | cls holds =>
    obtain ⟨w, _ | ⟨x, rest⟩⟩ := st
    · have hRejected : holds (R.char b) = false := h.rejected
      simp [run, At.append, hRejected]
    · simp only [run, At.append, List.cons_append]
      split <;> rfl
  | wordB =>
    have hNext : beforeWord R (st.append (b :: after)).rest = beforeWord R st.rest := by
      obtain ⟨w, _ | ⟨x, rest⟩⟩ := st
      · exact h.nonword
      · rfl
    have hWord : (st.append (b :: after)).afterWord = st.afterWord := rfl
    simp only [run, hNext, hWord]
    split <;> rfl
  | seq a b iha ihb =>
    simp only [run, iha h.seq_left, List.flatMap_map, List.map_flatMap]
    exact List.flatMap_congr fun st _ => ihb h.seq_right st
  | alt a b iha ihb =>
    simp only [run, iha h.alt_left, ihb h.alt_right, List.map_append]
  | star greedy a iha =>
    have hFuel : rounds (run R a) greedy (st.rest.length + (b :: after).length) st =
        rounds (run R a) greedy st.rest.length st := rounds_fuel (Nat.le_add_right _ _) (Nat.le_refl _)
    rw [run, run, At.append_rest, List.length_append, rounds_append (iha h.star), hFuel]

/-! ## Reading the same characters elsewhere -/

theorem rounds_map {β : Type} {f : α → β} {step : At α → List (At α)} {step' : At β → List (At β)}
    {greedy : Bool} (hStep : ∀ st, step' (st.map f) = (step st).map fun st => st.map f) (n : Nat)
    (st : At α) :
    rounds step' greedy n (st.map f) = (rounds step greedy n st).map fun st => st.map f := by
  induction n generalizing st with
  | zero => rfl
  | succ n ih =>
    have hMore : ((step' (st.map f)).flatMap fun next =>
        if next.rest.length < (st.map f).rest.length then rounds step' greedy n next else []) =
          ((step st).flatMap fun next =>
            if next.rest.length < st.rest.length then rounds step greedy n next else []).map
              fun st => st.map f := by
      rw [hStep, List.flatMap_map, List.map_flatMap]
      refine List.flatMap_congr fun next _ => ?_
      simp only [At.map_rest, List.length_map]
      split
      · exact ih next
      · rfl
    cases greedy with
    | false => simp only [rounds, hMore, Bool.false_eq_true, if_false, List.map_cons]
    | true => simp only [rounds, hMore, if_true, List.map_append, List.map_cons, List.map_nil]

/-- A pattern sees characters only: renaming symbols renames its matches. -/
theorem run_map {β : Type} {f : α → β} {R' : Reading β} (hChar : ∀ x, R'.char (f x) = R.char x)
    (hWord : R'.word = R.word) (r : Re) (st : At α) :
    run R' r (st.map f) = (run R r st).map fun st => st.map f := by
  induction r generalizing st with
  | eps => rfl
  | cls holds =>
    obtain ⟨w, _ | ⟨x, rest⟩⟩ := st
    · rfl
    · simp only [run, At.map, List.map_cons, hChar, hWord]
      split <;> rfl
  | wordB =>
    have hNext : beforeWord R' (st.map f).rest = beforeWord R st.rest := by
      obtain ⟨w, _ | ⟨x, rest⟩⟩ := st
      · rfl
      · simp only [At.map_rest, List.map_cons, beforeWord, hChar, hWord]
    have hAfter : (st.map f).afterWord = st.afterWord := rfl
    simp only [run, hNext, hAfter]
    split <;> rfl
  | seq a b iha ihb =>
    simp only [run, iha, List.flatMap_map, List.map_flatMap]
    exact List.flatMap_congr fun st _ => ihb st
  | alt a b iha ihb => simp only [run, iha, ihb, List.map_append]
  | star greedy a iha =>
    rw [run, run, rounds_map iha, At.map_rest, List.length_map]

/-! ## Patterns without word boundaries -/

/-- The pattern asks about no word boundary, so what stands around a match does not matter. -/
def Re.free : Re → Bool
  | .eps => true
  | .cls _ => true
  | .wordB => false
  | .seq a b => a.free && b.free
  | .alt a b => a.free && b.free
  | .star _ a => a.free

theorem rounds_free {step : At α → List (At α)} {greedy : Bool}
    (hStep : ∀ w w' rest, (step ⟨w, rest⟩).map At.rest = (step ⟨w', rest⟩).map At.rest) (n : Nat)
    (w w' : Bool) (rest : List α) :
    (rounds step greedy n ⟨w, rest⟩).map At.rest = (rounds step greedy n ⟨w', rest⟩).map At.rest := by
  induction n generalizing w w' rest with
  | zero => rfl
  | succ n ih =>
    have hMore (w : Bool) : ((step ⟨w, rest⟩).flatMap fun next =>
        if next.rest.length < rest.length then rounds step greedy n next else []).map At.rest =
          ((step ⟨w, rest⟩).map At.rest).flatMap fun inner =>
            if inner.length < rest.length then (rounds step greedy n ⟨false, inner⟩).map At.rest
            else [] := by
      rw [List.map_flatMap, List.flatMap_map]
      refine List.flatMap_congr fun next _ => ?_
      split
      · exact ih next.afterWord false next.rest
      · rfl
    cases greedy with
    | false =>
      simp only [rounds, Bool.false_eq_true, if_false, List.map_cons, hMore, hStep w w' rest]
    | true =>
      simp only [rounds, if_true, List.map_append, List.map_cons, List.map_nil, hMore,
        hStep w w' rest]

theorem run_free {r : Re} (h : r.free = true) (w w' : Bool) (rest : List α) :
    (run R r ⟨w, rest⟩).map At.rest = (run R r ⟨w', rest⟩).map At.rest := by
  induction r generalizing w w' rest with
  | eps => rfl
  | cls holds => rfl
  | wordB => cases h
  | seq a b iha ihb =>
    obtain ⟨ha, hb⟩ := Bool.and_eq_true_iff.mp h
    have hSeq (w : Bool) : ((run R a ⟨w, rest⟩).flatMap (run R b)).map At.rest =
        ((run R a ⟨w, rest⟩).map At.rest).flatMap fun inner => (run R b ⟨false, inner⟩).map At.rest := by
      rw [List.map_flatMap, List.flatMap_map]
      exact List.flatMap_congr fun next _ => ihb hb next.afterWord false next.rest
    rw [run, run, hSeq w, hSeq w', iha ha w w' rest]
  | alt a b iha ihb =>
    obtain ⟨ha, hb⟩ := Bool.and_eq_true_iff.mp h
    rw [run, run, List.map_append, List.map_append, iha ha w w' rest, ihb hb w w' rest]
  | star greedy a iha => exact rounds_free (iha h) rest.length w w' rest

/-- A match of such a pattern can be moved to any place its text stands in. -/
theorem run_moved {r : Re} (h : r.free = true) {w : Bool} {taken after : List α} {fin : At α}
    (hFin : fin ∈ run R r ⟨w, taken ++ after⟩) (hRest : fin.rest = after) (w' : Bool)
    (after' : List α) :
    ∃ fin' ∈ run R r ⟨w', taken ++ after'⟩, fin'.rest = after' := by
  induction r generalizing w w' taken after after' fin with
  | eps =>
    obtain rfl := List.mem_singleton.mp hFin
    have hNil : taken = [] := by simpa using hRest
    exact ⟨_, List.mem_singleton.mpr rfl, by simp [hNil]⟩
  | cls holds =>
    cases taken with
    | nil =>
      obtain ⟨front, hFront, -⟩ := run_taken R hFin
      cases after with
      | nil => cases hFin
      | cons x after =>
        simp only [run, List.nil_append] at hFin
        split at hFin
        · obtain rfl := List.mem_singleton.mp hFin
          exact absurd (congrArg List.length hRest) (by simp)
        · cases hFin
    | cons x taken =>
      simp only [run, List.cons_append] at hFin ⊢
      split at hFin
      · rename_i hHolds
        obtain rfl := List.mem_singleton.mp hFin
        have hNil : taken = [] := by simpa using hRest
        rw [if_pos hHolds]
        exact ⟨_, List.mem_singleton.mpr rfl, by simp [hNil]⟩
      · cases hFin
  | wordB => cases h
  | seq a b iha ihb =>
    obtain ⟨ha, hb⟩ := Bool.and_eq_true_iff.mp h
    obtain ⟨mid, hMid, hFin⟩ := List.mem_flatMap.mp hFin
    obtain ⟨front, hFront, -⟩ := run_taken R hMid
    obtain ⟨back, hBack, -⟩ := run_taken R hFin
    have hTaken : taken = front ++ back := by
      rw [hBack, hRest, ← List.append_assoc] at hFront
      exact List.append_cancel_right hFront
    have hMidRest : mid.rest = back ++ after := by rw [hBack, hRest]
    rw [hTaken, List.append_assoc] at hMid
    obtain ⟨mid', hMid', hRest'⟩ := iha ha hMid hMidRest w' (back ++ after')
    obtain ⟨wMid, restMid⟩ := mid
    obtain ⟨wMid', restMid'⟩ := mid'
    simp only at hMidRest hRest'
    subst hMidRest hRest'
    obtain ⟨fin', hFin', hEnd⟩ := ihb hb hFin hRest wMid' after'
    refine ⟨fin', List.mem_flatMap.mpr ⟨_, ?_, hFin'⟩, hEnd⟩
    rwa [hTaken, List.append_assoc]
  | alt a b iha ihb =>
    obtain ⟨ha, hb⟩ := Bool.and_eq_true_iff.mp h
    rcases List.mem_append.mp hFin with hFin | hFin
    · obtain ⟨fin', hFin', hEnd⟩ := iha ha hFin hRest w' after'
      exact ⟨fin', List.mem_append_left _ hFin', hEnd⟩
    · obtain ⟨fin', hFin', hEnd⟩ := ihb hb hFin hRest w' after'
      exact ⟨fin', List.mem_append_right _ hFin', hEnd⟩
  | star greedy a iha =>
    -- The rounds are moved one by one, each in front of the text of the later ones.
    have hRounds (n n' : Nat) : ∀ (w w' : Bool) (taken : List α) (fin : At α),
        fin ∈ rounds (run R a) greedy n ⟨w, taken ++ after⟩ → fin.rest = after →
        (taken ++ after').length ≤ n' →
        ∃ fin' ∈ rounds (run R a) greedy n' ⟨w', taken ++ after'⟩, fin'.rest = after' := by
      induction n generalizing n' with
      | zero =>
        intro w w' taken fin hFin hRest hn'
        obtain rfl := List.mem_singleton.mp hFin
        have hNil : taken = [] := by simpa using hRest
        subst hNil
        cases n' with
        | zero => exact ⟨_, List.mem_singleton.mpr rfl, rfl⟩
        | succ n' => exact ⟨_, mem_rounds_succ.mpr (.inl rfl), rfl⟩
      | succ n ih =>
        intro w w' taken fin hFin hRest hn'
        rcases mem_rounds_succ.mp hFin with rfl | ⟨next, hNext, hLess, hFin⟩
        · have hNil : taken = [] := by simpa using hRest
          subst hNil
          cases n' with
          | zero => exact ⟨_, List.mem_singleton.mpr rfl, rfl⟩
          | succ n' => exact ⟨_, mem_rounds_succ.mpr (.inl rfl), rfl⟩
        · obtain ⟨front, hFront, -⟩ := run_taken R hNext
          obtain ⟨back, hBack, -⟩ := rounds_taken (run_taken R) hFin
          have hTaken : taken = front ++ back := by
            rw [hBack, hRest, ← List.append_assoc] at hFront
            exact List.append_cancel_right hFront
          have hNextRest : next.rest = back ++ after := by rw [hBack, hRest]
          rw [hTaken, List.append_assoc] at hNext
          obtain ⟨next', hNext', hRest'⟩ :=
            iha h hNext hNextRest w' (back ++ after')
          obtain ⟨wNext, restNext⟩ := next
          obtain ⟨wNext', restNext'⟩ := next'
          simp only at hNextRest hRest'
          subst hNextRest hRest'
          have hShort : (back ++ after').length < (taken ++ after').length := by
            rw [hTaken] at hLess ⊢
            simp only [List.length_append] at hLess ⊢
            omega
          cases n' with
          | zero => omega
          | succ n' =>
            obtain ⟨fin', hFin', hEnd⟩ := ih n' wNext wNext' back fin hFin hRest (by omega)
            refine ⟨fin', mem_rounds_succ.mpr (.inr ⟨_, ?_, hShort, hFin'⟩), hEnd⟩
            rwa [hTaken, List.append_assoc]
    exact hRounds _ _ w w' taken fin hFin hRest (Nat.le_refl _)

end Bajutsu.Regex
