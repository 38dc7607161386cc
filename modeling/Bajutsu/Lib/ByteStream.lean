import Mathlib.Data.List.Infix

/-!
# Reading and writing a stream in pieces

A peer's bytes arrive in pieces that a reader cannot choose, and a writer's bytes leave in pieces that it cannot
choose either. What is read depends on the bytes that arrive and not on how they are split.
-/

namespace ByteStream

variable {α : Type}

/-- The pieces in which bytes arrive. An empty piece is a read that fails: the peer closed its side, or nothing
arrived in time. -/
abbrev Arrivals (α : Type) := List (List α)

def recv (room : Nat) : Arrivals α → List α × Arrivals α
  | [] => ([], [])
  | [] :: rest => ([], rest)
  | (x :: xs) :: rest =>
    ((x :: xs).take room, if (x :: xs).length ≤ room then rest else (x :: xs).drop room :: rest)

/-- Everything that arrives before the first read that fails. -/
def arrived : Arrivals α → List α
  | [] => []
  | [] :: _ => []
  | (x :: xs) :: rest => (x :: xs) ++ arrived rest

theorem recv_cases {room : Nat} (hRoom : 0 < room) (arrivals : Arrivals α) :
    ((recv room arrivals).1 = [] ∧ arrived arrivals = []) ∨
      ((recv room arrivals).1 ≠ [] ∧ (recv room arrivals).1.length ≤ room ∧
        arrived arrivals = (recv room arrivals).1 ++ arrived (recv room arrivals).2) := by
  cases arrivals with
  | nil => exact .inl ⟨rfl, rfl⟩
  | cons piece rest =>
    cases piece with
    | nil => exact .inl ⟨rfl, rfl⟩
    | cons x xs =>
      refine .inr ⟨?_, ?_, ?_⟩
      · obtain ⟨n, rfl⟩ := Nat.exists_eq_succ_of_ne_zero hRoom.ne'
        simp [recv]
      · simp only [recv, List.length_take]
        omega
      · rw [recv]
        dsimp only
        split
        · rename_i hLength
          rw [List.take_of_length_le hLength]
          rfl
        · rename_i hLength
          have hDrop : (x :: xs).drop room ≠ [] := by
            rw [ne_eq, List.drop_eq_nil_iff]
            exact hLength
          obtain ⟨y, ys, hys⟩ := List.exists_cons_of_ne_nil hDrop
          rw [hys, arrived, arrived, ← hys, ← List.append_assoc, List.take_append_drop]

/-! ## A given number of bytes -/

/-- Reads until `n` bytes are there or a read fails; `fuel` is at least `n`. -/
def readExactly : Nat → Nat → Arrivals α → List α × Arrivals α
  | 0, _, arrivals => ([], arrivals)
  | fuel + 1, n, arrivals =>
    if n = 0 then ([], arrivals)
    else
      let got := recv n arrivals
      if got.1 = [] then got
      else
        let more := readExactly fuel (n - got.1.length) got.2
        (got.1 ++ more.1, more.2)

theorem readExactly_cases {fuel n : Nat} (hFuel : n ≤ fuel) (arrivals : Arrivals α) :
    ((readExactly fuel n arrivals).1.length = n ∧
        arrived arrivals = (readExactly fuel n arrivals).1 ++ arrived (readExactly fuel n arrivals).2) ∨
      ((readExactly fuel n arrivals).1.length < n ∧ arrived arrivals = (readExactly fuel n arrivals).1) := by
  induction fuel generalizing n arrivals with
  | zero =>
    cases Nat.le_zero.mp hFuel
    exact .inl ⟨rfl, rfl⟩
  | succ fuel ih =>
    rw [readExactly]
    by_cases hn : n = 0
    · subst hn
      exact .inl ⟨rfl, rfl⟩
    · rw [if_neg hn]
      obtain ⟨hNone, hArrived⟩ | ⟨hSome, hLength, hArrived⟩ := recv_cases (Nat.pos_of_ne_zero hn) arrivals
      · dsimp only
        rw [if_pos hNone, hNone]
        exact .inr ⟨Nat.pos_of_ne_zero hn, hArrived⟩
      · dsimp only
        rw [if_neg hSome]
        have hPos := List.length_pos_of_ne_nil hSome
        obtain ⟨hMore, hRest⟩ | ⟨hMore, hRest⟩ :=
          @ih (n - (recv n arrivals).1.length) (by omega) (recv n arrivals).2
        · refine .inl ⟨?_, ?_⟩
          · rw [List.length_append]
            omega
          · rw [hArrived, List.append_assoc, ← hRest]
        · refine .inr ⟨?_, ?_⟩
          · rw [List.length_append]
            omega
          · rw [hArrived, ← hRest]

/-! ## A block up to its terminator -/

inductive BlockRead (α : Type) where
  | block (bytes : List α)
  | nothing
  | cut

/-- Reads byte by byte until what was read ends in the terminator, a read fails or there is no more room. -/
def readBlock [DecidableEq α] (terminator : List α) : Nat → List α → Arrivals α → BlockRead α × Arrivals α
  | 0, _, arrivals => (.cut, arrivals)
  | room + 1, read, arrivals =>
    match recv 1 arrivals with
    | ([], rest) => (if read = [] then .nothing else .cut, rest)
    | (got@(_ :: _), rest) =>
      if terminator.isSuffixOf (read ++ got) then (.block (read ++ got), rest)
      else readBlock terminator room (read ++ got) rest

/-- Ends in the terminator, for the first time, within the room. -/
structure Block (terminator : List α) (room : Nat) (block : List α) : Prop where
  ends : terminator <:+ block
  first : ∀ shorter, shorter <+: block → terminator <:+ shorter → shorter = block
  fits : block.length ≤ room

theorem Block.unique {terminator block block' rest rest' : List α} {room room' : Nat}
    (h : Block terminator room block) (h' : Block terminator room' block')
    (hStream : block ++ rest = block' ++ rest') : block = block' := by
  have hPrefix : block <+: block' ++ rest' := ⟨rest, hStream⟩
  obtain hLength | hLength := Nat.le_total block.length block'.length
  · exact h'.first block (List.prefix_of_prefix_length_le hPrefix (List.prefix_append _ _) hLength) h.ends
  · exact (h.first block' (List.prefix_of_prefix_length_le (List.prefix_append _ _) hPrefix hLength) h'.ends).symm

/-- Nothing that was read so far ends in the terminator. -/
def Unended (terminator read : List α) : Prop := ∀ shorter, shorter <+: read → ¬terminator <:+ shorter

theorem Unended.snoc {terminator read : List α} (h : Unended terminator read) {x : α}
    (hx : ¬terminator <:+ read ++ [x]) : Unended terminator (read ++ [x]) := by
  intro shorter hShorter
  obtain rfl | hShorter := List.prefix_concat_iff.mp hShorter
  · exact hx
  · exact h shorter hShorter

theorem readBlock_cases [DecidableEq α] {terminator : List α} {room : Nat} {read : List α} {arrivals : Arrivals α} {cap : Nat}
    (hRead : Unended terminator read) (hCap : read.length + room = cap) :
    (∃ block, (readBlock terminator room read arrivals).1 = .block block ∧ Block terminator cap block ∧
        read ++ arrived arrivals = block ++ arrived (readBlock terminator room read arrivals).2) ∨
      ((readBlock terminator room read arrivals).1 = .nothing ∧ read ++ arrived arrivals = []) ∨
      ((readBlock terminator room read arrivals).1 = .cut ∧ (room = 0 ∨ read ++ arrived arrivals ≠ []) ∧
        ∀ block rest, Block terminator cap block → read ++ arrived arrivals ≠ block ++ rest) := by
  induction room generalizing read arrivals with
  | zero =>
    refine .inr (.inr ⟨rfl, .inl rfl, fun block rest hBlock hStream => ?_⟩)
    have hPrefix : block <+: read := by
      apply List.prefix_of_prefix_length_le ⟨rest, hStream.symm⟩ (List.prefix_append read _)
      have hFits := hBlock.fits
      omega
    exact hRead block hPrefix hBlock.ends
  | succ room ih =>
    rw [readBlock]
    have hOne := @recv_cases α 1 Nat.one_pos arrivals
    cases hRecv : recv 1 arrivals with
    | mk got rest =>
      rw [hRecv] at hOne
      obtain ⟨hNone, hArrived⟩ | ⟨hSome, hLength, hArrived⟩ := hOne
      · dsimp only at hNone
        subst hNone
        rw [hArrived, List.append_nil]
        by_cases hEmpty : read = []
        · exact .inr (.inl ⟨if_pos hEmpty, hEmpty⟩)
        · refine .inr (.inr ⟨if_neg hEmpty, .inr hEmpty, fun block rest' hBlock hStream => ?_⟩)
          exact hRead block ⟨rest', hStream.symm⟩ hBlock.ends
      · dsimp only at hSome hLength hArrived
        obtain ⟨x, xs, rfl⟩ := List.exists_cons_of_ne_nil hSome
        have hNil : xs = [] := by
          rw [List.length_cons] at hLength
          exact List.length_eq_zero_iff.mp (by omega)
        subst hNil
        have hStream : read ++ arrived arrivals = (read ++ [x]) ++ arrived rest := by
          rw [hArrived, List.append_assoc]
        rw [hStream]
        dsimp only
        by_cases hEnds : terminator <:+ read ++ [x]
        · rw [if_pos (List.isSuffixOf_iff_suffix.mpr hEnds)]
          refine .inl ⟨read ++ [x], rfl, ⟨hEnds, ?_, ?_⟩, rfl⟩
          · intro shorter hShorter hEnd
            obtain hEq | hShorter := List.prefix_concat_iff.mp hShorter
            · exact hEq
            · exact absurd hEnd (hRead shorter hShorter)
          · rw [List.length_append, List.length_singleton]
            omega
        · rw [if_neg fun h => hEnds (List.isSuffixOf_iff_suffix.mp h)]
          obtain h | h | ⟨hCut, -, hNone⟩ := @ih (read ++ [x]) rest (hRead.snoc hEnds)
            (by rw [List.length_append, List.length_singleton]; omega)
          · exact .inl h
          · exact .inr (.inl h)
          · exact .inr (.inr ⟨hCut, .inr (by simp), hNone⟩)

/-! ## Writing -/

/-- What went out, whether it was everything, and how often the kernel was asked so far. -/
structure Sent (α : Type) where
  complete : Bool
  bytes : List α
  calls : Nat

/-- Writes until all is out or a call takes nothing. `taken` says what each call takes at most, and `fuel` is at
least the number of bytes. -/
def sendAll (taken : Nat → Nat) : Nat → Nat → List α → Sent α
  | _, calls, [] => ⟨true, [], calls⟩
  | 0, calls, _ :: _ => ⟨false, [], calls⟩
  | fuel + 1, calls, x :: xs =>
    if taken calls = 0 then ⟨false, [], calls + 1⟩
    else
      let rest := sendAll taken fuel (calls + 1) ((x :: xs).drop (taken calls))
      ⟨rest.complete, (x :: xs).take (taken calls) ++ rest.bytes, rest.calls⟩

theorem sendAll_cases (taken : Nat → Nat) {fuel : Nat} (calls : Nat) {data : List α} (hFuel : data.length ≤ fuel) :
    ((sendAll taken fuel calls data).complete = true ∧ (sendAll taken fuel calls data).bytes = data) ∨
      ((sendAll taken fuel calls data).complete = false ∧ (∃ i, taken i = 0) ∧
        ∃ rest ≠ [], data = (sendAll taken fuel calls data).bytes ++ rest) := by
  induction fuel generalizing calls data with
  | zero =>
    cases List.length_eq_zero_iff.mp (Nat.le_zero.mp hFuel)
    exact .inl ⟨rfl, rfl⟩
  | succ fuel ih =>
    cases data with
    | nil => exact .inl ⟨rfl, rfl⟩
    | cons x xs =>
      rw [sendAll]
      by_cases hNone : taken calls = 0
      · rw [if_pos hNone]
        exact .inr ⟨rfl, ⟨calls, hNone⟩, x :: xs, List.cons_ne_nil x xs, rfl⟩
      · rw [if_neg hNone]
        have hFuel' : ((x :: xs).drop (taken calls)).length ≤ fuel := by
          rw [List.length_drop]
          omega
        dsimp only
        obtain ⟨hAll, hBytes⟩ | ⟨hPart, hZero, rest, hRest, hBytes⟩ := ih (calls + 1) hFuel'
        · refine .inl ⟨hAll, ?_⟩
          rw [hBytes, List.take_append_drop]
        · refine .inr ⟨hPart, hZero, rest, hRest, ?_⟩
          rw [List.append_assoc, ← hBytes, List.take_append_drop]

end ByteStream
