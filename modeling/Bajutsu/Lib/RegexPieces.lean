import Bajutsu.Lib.Occurrence
import Bajutsu.Lib.RegexSearch

/-!
# Substitution that keeps a group

A pattern in two parts: the group a replacement writes back, and the value that is replaced. The
substitution cuts the text into kept symbols and replaced values.
-/

namespace Bajutsu.Regex

open Occurrence

variable {α : Type}

/-- A group, and a value behind it. -/
structure Keyed where
  group : Re
  value : Re

/-- Where the group of the first match that starts here ends, and where the match ends. -/
def Keyed.first (R : Reading α) (p : Keyed) (st : At α) : Option (At α × At α) :=
  ((run R p.group st).flatMap fun mid => (run R p.value mid).map fun fin => (mid, fin)).head?

/-- `Pattern.sub` with a function of the value: what it writes behind the group, or nothing when the
match is left as it is. `n` is at least the length of the text. -/
def Keyed.pieces (R : Reading α) (p : Keyed) (out : List α → Option (List α)) :
    Nat → At α → List (Piece α)
  | 0, st => allKept st.rest
  | n + 1, st =>
    match p.first R st with
    | some (mid, fin) =>
      allKept (upTo st.rest mid.rest) ++
        (match out (upTo mid.rest fin.rest) with
        | some written => [.replaced (upTo mid.rest fin.rest) written]
        | none => allKept (upTo mid.rest fin.rest)) ++ p.pieces R out n fin
    | none =>
      match st.rest with
      | [] => []
      | x :: rest => .kept x :: p.pieces R out n ⟨R.word (R.char x), rest⟩

def Keyed.cut (R : Reading α) (p : Keyed) (out : List α → Option (List α)) (text : List α) :
    List (Piece α) := p.pieces R out text.length ⟨false, text⟩

variable {R : Reading α}

theorem Keyed.first_parts {p : Keyed} {st mid fin : At α} (h : p.first R st = some (mid, fin)) :
    ∃ group value, st.rest = group ++ (value ++ fin.rest) ∧ mid.rest = value ++ fin.rest ∧
      fin ∈ run R p.value mid := by
  obtain ⟨mid', hMid, hFin⟩ := List.mem_flatMap.mp (List.mem_of_mem_head? h)
  obtain ⟨fin', hFin, hSame⟩ := List.mem_map.mp hFin
  cases hSame
  obtain ⟨group, hGroup, -⟩ := run_taken R hMid
  obtain ⟨value, hValue, -⟩ := run_taken R hFin
  exact ⟨group, value, by rw [hGroup, hValue], hValue, hFin⟩

theorem Keyed.source_pieces (p : Keyed) (out : List α → Option (List α)) (n : Nat) (st : At α) :
    source (p.pieces R out n st) = st.rest := by
  induction n generalizing st with
  | zero => exact source_allKept st.rest
  | succ n ih =>
    rw [pieces]
    split
    · rename_i mid fin hFirst
      obtain ⟨group, value, hRest, hMid, -⟩ := first_parts hFirst
      rw [hRest, hMid, upTo_append, upTo_append]
      cases out value <;> simp [ih, Piece.source]
    · split
      · rename_i hRest
        exact hRest.symm
      · rename_i x rest hRest
        rw [source_cons, ih, hRest]
        rfl

theorem Keyed.source_cut (p : Keyed) (out : List α → Option (List α)) (text : List α) :
    source (p.cut R out text) = text := p.source_pieces out text.length ⟨false, text⟩

/-- The value part of every match takes something. -/
def Keyed.TakesValue (R : Reading α) (p : Keyed) : Prop :=
  ∀ mid fin, fin ∈ run R p.value mid → fin.rest.length < mid.rest.length

theorem not_mem_allKept {taken out text : List α} : Piece.replaced taken out ∉ allKept text := by
  simp [allKept]

theorem Keyed.replaced_mem {p : Keyed} {out : List α → Option (List α)} {n : Nat} {st : At α}
    {taken written : List α} (h : Piece.replaced taken written ∈ p.pieces R out n st) :
    out taken = some written := by
  induction n generalizing st with
  | zero => exact absurd h not_mem_allKept
  | succ n ih =>
    rw [pieces] at h
    split at h
    · rename_i mid fin hFirst
      rcases List.mem_append.mp h with h | h
      · rcases List.mem_append.mp h with h | h
        · exact absurd h not_mem_allKept
        · split at h
          · rename_i hOut
            cases List.mem_singleton.mp h
            exact hOut
          · exact absurd h not_mem_allKept
      · exact ih h
    · split at h
      · cases h
      · rcases List.mem_cons.mp h with h | h
        · cases h
        · exact ih h

theorem solid_append {ps qs : List (Piece α)} (hp : Solid ps) (hq : Solid qs) : Solid (ps ++ qs) := by
  intro p hMem
  exact (List.mem_append.mp hMem).elim (hp p) (hq p)

theorem solid_allKept (text : List α) : Solid (allKept text) := by
  intro p hMem
  obtain ⟨x, -, rfl⟩ := List.mem_map.mp hMem
  exact List.cons_ne_nil x []

theorem Keyed.solid_pieces {p : Keyed} (hTakes : p.TakesValue R) (out : List α → Option (List α))
    (n : Nat) (st : At α) : Solid (p.pieces R out n st) := by
  induction n generalizing st with
  | zero => exact solid_allKept st.rest
  | succ n ih =>
    rw [pieces]
    split
    · rename_i mid fin hFirst
      obtain ⟨group, value, -, hMid, hFin⟩ := first_parts hFirst
      have hLess := hTakes mid fin hFin
      rw [hMid, upTo_append]
      refine solid_append (solid_append (solid_allKept _) ?_) (ih fin)
      split
      · intro q hMem hNil
        cases List.mem_singleton.mp hMem
        change value = [] at hNil
        rw [hMid, hNil] at hLess
        exact Nat.lt_irrefl _ hLess
      · exact solid_allKept value
    · split
      · rintro q ⟨⟩
      · rename_i x rest hRest
        intro q hMem
        rcases List.mem_cons.mp hMem with rfl | hMem
        · exact List.cons_ne_nil x []
        · exact ih _ q hMem

/-- A substitution that leaves every match as it is changes nothing. -/
theorem Keyed.result_of_none {p : Keyed} {out : List α → Option (List α)} {n : Nat} {st : At α}
    (h : ∀ taken written, Piece.replaced taken written ∉ p.pieces R out n st) :
    result (p.pieces R out n st) = st.rest := by
  have hAll (ps : List (Piece α)) (hNone : ∀ taken written, Piece.replaced taken written ∉ ps) :
      result ps = source ps := by
    induction ps with
    | nil => rfl
    | cons q ps ih =>
      rw [result_cons, source_cons, ih fun taken written hMem => hNone taken written (by simp [hMem])]
      cases q with
      | kept x => rfl
      | replaced taken written => exact absurd List.mem_cons_self (hNone taken written)
  rw [hAll _ h, source_pieces]

/-! ## Short texts -/

/-- The fewest symbols a match can take. -/
def Re.least : Re → Nat
  | .eps => 0
  | .cls _ => 1
  | .wordB => 0
  | .seq a b => a.least + b.least
  | .alt a b => min a.least b.least
  | .star _ _ => 0

theorem run_least {r : Re} {st fin : At α} (h : fin ∈ run R r st) :
    fin.rest.length + r.least ≤ st.rest.length := by
  induction r generalizing st fin with
  | eps =>
    obtain rfl := List.mem_singleton.mp h
    exact Nat.le_refl _
  | cls holds =>
    obtain ⟨w, _ | ⟨x, rest⟩⟩ := st
    · cases h
    · simp only [run] at h
      split at h
      · obtain rfl := List.mem_singleton.mp h
        exact Nat.le_refl _
      · cases h
  | wordB =>
    rw [run] at h
    split at h
    · cases h
    · obtain rfl := List.mem_singleton.mp h
      exact Nat.le_refl _
  | seq a b iha ihb =>
    obtain ⟨mid, hMid, hFin⟩ := List.mem_flatMap.mp h
    have hFirst := iha hMid
    have hSecond := ihb hFin
    rw [Re.least]
    omega
  | alt a b iha ihb =>
    rw [Re.least]
    obtain h | h := List.mem_append.mp h
    · have hLeft := iha h
      omega
    · have hRight := ihb h
      omega
  | star greedy a iha =>
    obtain ⟨taken, hTaken, -⟩ := run_taken R h
    rw [hTaken, List.length_append, Re.least]
    omega

theorem Keyed.first_none {p : Keyed} {st : At α} (h : st.rest.length < p.group.least + p.value.least) :
    p.first R st = none := by
  cases hFirst : p.first R st with
  | none => rfl
  | some ends =>
    obtain ⟨mid', hMid, hFin⟩ := List.mem_flatMap.mp (List.mem_of_mem_head? hFirst)
    obtain ⟨fin', hFin, -⟩ := List.mem_map.mp hFin
    have hGroup := run_least hMid
    have hValue := run_least hFin
    omega

theorem Keyed.cut_single {p : Keyed} (hGroup : 0 < p.group.least) (hValue : 0 < p.value.least)
    (out : List α → Option (List α)) (x : α) : p.cut R out [x] = [.kept x] := by
  have hNone : p.first R ⟨false, [x]⟩ = none := first_none (by simp only [List.length_singleton]; omega)
  rw [Keyed.cut, List.length_singleton, Keyed.pieces, hNone]
  rfl

end Bajutsu.Regex
