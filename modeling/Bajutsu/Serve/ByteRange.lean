import Bajutsu.Lib.PyText

/-!
# Byte ranges

A browser seeks in a report's video by ranges of bytes. A reply is the whole body, a part of it, or the refusal of a
range that the body does not have.
-/

namespace Bajutsu.Serve.ByteRange

open PyText

abbrev Text := List Char

/-- `_RANGE_RE.fullmatch` -/
def matchRange (text : Text) : Option (Text × Text) :=
  if "bytes=".toList.isPrefixOf text then
    let range := text.drop "bytes=".length
    match range.dropWhile Char.isDigit with
    | '-' :: last => if last.all Char.isDigit then some (range.takeWhile Char.isDigit, last) else none
    | _ => none
  else none

/-- `none` is a `ValueError`. -/
def satisfied (start last : Int) (total : Nat) : Option (Option (Int × Int)) :=
  if last < start ∨ (total : Int) ≤ start then none else some (some (start, min last (total - 1)))

/-- `none` is a `ValueError`, which `int` raises too. -/
def parseByteRange (header : Option Text) (total : Nat) : Option (Option (Int × Int)) :=
  match header with
  | none => some none
  | some header =>
    if header = [] then some none
    else
      match matchRange (strip header) with
      | none => some none
      | some ([], []) => none
      | some ([], suffix) =>
        (intOf suffix).bind fun suffixLength =>
          if suffixLength = 0 then none else satisfied (max 0 (total - suffixLength)) (total - 1) total
      | some (start, []) => (intOf start).bind fun start => satisfied start (total - 1) total
      | some (start, last) => (intOf start).bind fun start => (intOf last).bind fun last => satisfied start last total

variable {β : Type}

structure Reply (β : Type) where
  status : Nat
  body : List β
  headers : List (String × Text)

/-- `data[start:stop]`, for bounds that are not negative. -/
def slice (data : List β) (start stop : Int) : List β := (data.take stop.toNat).drop start.toNat

def contentRange (start last total : Nat) : Text :=
  "bytes ".toList ++ (decimal start ++ ('-' :: (decimal last ++ ('/' :: decimal total))))

def rangeReply (data : List β) (header : Option Text) : Reply β :=
  let acceptRanges := ("Accept-Ranges", "bytes".toList)
  match parseByteRange header data.length with
  | none => ⟨416, [], [("Content-Range", "bytes */".toList ++ decimal data.length)]⟩
  | some none => ⟨200, data, [acceptRanges]⟩
  | some (some (start, last)) =>
    ⟨206, slice data start (last + 1), [acceptRanges, ("Content-Range", contentRange start.toNat last.toNat data.length)]⟩

/-! ## What a part is -/

theorem satisfied_inside {start last : Int} {total : Nat} (hStart : 0 ≤ start) {range : Int × Int}
    (h : satisfied start last total = some (some range)) :
    0 ≤ range.1 ∧ range.1 ≤ range.2 ∧ range.2 < total := by
  rw [satisfied] at h
  split at h
  · cases h
  · cases h
    dsimp only
    omega

theorem parseByteRange_inside {header : Option Text} {total : Nat} {range : Int × Int}
    (h : parseByteRange header total = some (some range)) : 0 ≤ range.1 ∧ range.1 ≤ range.2 ∧ range.2 < total := by
  rw [parseByteRange.eq_def] at h
  split at h
  · cases h
  split at h
  · cases h
  split at h
  · cases h
  · cases h
  · obtain ⟨suffixLength, -, h⟩ := Option.bind_eq_some_iff.mp h
    split at h
    · cases h
    · exact satisfied_inside (le_max_left _ _) h
  · obtain ⟨start, -, h⟩ := Option.bind_eq_some_iff.mp h
    exact satisfied_inside (Int.natCast_nonneg start) h
  · obtain ⟨start, -, h⟩ := Option.bind_eq_some_iff.mp h
    obtain ⟨last, -, h⟩ := Option.bind_eq_some_iff.mp h
    exact satisfied_inside (Int.natCast_nonneg start) h

theorem slice_eq (data : List β) (start last : Nat) :
    slice data start (last + 1) = (data.drop start).take (last + 1 - start) := by
  rw [slice, List.drop_take]
  rfl

/-! ## The ranges of a client -/

def rangeHeader (start last : Nat) : Text := "bytes=".toList ++ (decimal start ++ ('-' :: decimal last))

theorem isDigit_decimal {n : Nat} {c : Char} (h : c ∈ decimal n) : c.isDigit = true := by
  obtain ⟨d, hd, rfl⟩ := mem_decimal h
  have hAll : ∀ d < 10, (Nat.digitChar d).isDigit = true := by decide
  exact hAll d hd

theorem isSpace_decimal {n : Nat} {c : Char} (h : c ∈ decimal n) : isSpace c = false := by
  by_contra hSpace
  have hDigit := not_isDigit_of_isSpace (Bool.eq_true_of_not_eq_false hSpace)
  rw [isDigit_of_mem_decimal h] at hDigit
  cases hDigit

theorem strip_rangeHeader (start last : Nat) : strip (rangeHeader start last) = rangeHeader start last := by
  have hBody := @strip_surrounded [] (rangeHeader start last) [] (by simp) (by simp)
  rw [List.nil_append, List.append_nil] at hBody
  apply hBody
  · intro c hc
    have hHead : (rangeHeader start last).head? = some 'b' := rfl
    obtain rfl : 'b' = c := Option.some.inj (hHead.symm.trans hc)
    decide
  · intro c hc
    have hHeader : rangeHeader start last = "bytes=".toList ++ (decimal start ++ ('-' :: decimal last)) := rfl
    have hEnd : rangeHeader start last = ("bytes=".toList ++ (decimal start ++ ['-'])) ++ decimal last := by
      rw [hHeader, List.append_assoc, List.append_assoc, List.singleton_append]
    rw [hEnd, List.getLast?_append_of_ne_nil _ (decimal_ne_nil last)] at hc
    exact isSpace_decimal (List.mem_of_getLast? hc)

theorem matchRange_rangeHeader (start last : Nat) :
    matchRange (rangeHeader start last) = some (decimal start, decimal last) := by
  have hRange : (rangeHeader start last).drop "bytes=".length = decimal start ++ ('-' :: decimal last) := List.drop_left
  obtain ⟨hTake, hDrop⟩ := @takeWhile_dropWhile_append _ Char.isDigit (decimal start) ('-' :: decimal last)
    (fun c hMem => isDigit_decimal hMem) (by simp)
  have hDigits : (decimal last).all Char.isDigit = true := List.all_eq_true.mpr fun c hMem => isDigit_decimal hMem
  have hBytes : "bytes=".toList.isPrefixOf (rangeHeader start last) = true :=
    List.isPrefixOf_iff_prefix.mpr (List.prefix_append _ _)
  rw [matchRange, if_pos hBytes, hRange]
  dsimp only
  rw [hDrop]
  simp [hTake, hDigits]

theorem parseByteRange_rangeHeader {start last total : Nat} (hStart : start < 10 ^ maxStrDigits)
    (hLast : last < 10 ^ maxStrDigits) :
    parseByteRange (some (rangeHeader start last)) total = satisfied start last total := by
  have hNe : rangeHeader start last ≠ [] := List.append_ne_nil_of_left_ne_nil (by decide) _
  rw [parseByteRange.eq_def]
  dsimp only
  rw [if_neg hNe, strip_rangeHeader, matchRange_rangeHeader]
  obtain ⟨c, first, hFirst⟩ := List.exists_cons_of_ne_nil (decimal_ne_nil start)
  obtain ⟨d, rest, hRest⟩ := List.exists_cons_of_ne_nil (decimal_ne_nil last)
  simp only [hFirst, hRest]
  rw [← hFirst, ← hRest, intOf_decimal, intOf_decimal, if_pos hStart, if_pos hLast]
  rfl

theorem rangeReply_body {data : List β} {start n : Nat} (h : start + n < 10 ^ maxStrDigits) :
    (rangeReply data (some (rangeHeader start (start + n)))).body = (data.drop start).take (n + 1) := by
  have hParse := @parseByteRange_rangeHeader start (start + n) data.length (by omega) h
  rw [rangeReply, hParse, satisfied]
  by_cases hInside : start < data.length
  · rw [if_neg (by omega)]
    have hLast : min ((start + n : Nat) : Int) (data.length - 1) = ((min (start + n) (data.length - 1) : Nat) : Int) := by
      omega
    dsimp only
    rw [hLast, slice_eq, List.take_eq_take_iff, List.length_drop]
    omega
  · rw [if_pos (by omega), List.drop_eq_nil_of_le (by omega)]
    rfl

/-- The bodies of one reply after the other, each for the bytes that follow those asked for before. -/
def fetched (data : List β) : Nat → List Nat → List β
  | _, [] => []
  | start, n :: lengths =>
    (rangeReply data (some (rangeHeader start (start + n)))).body ++ fetched data (start + n + 1) lengths

theorem fetched_eq (data : List β) (start : Nat) (lengths : List Nat)
    (h : start + (lengths.map Nat.succ).sum ≤ 10 ^ maxStrDigits) :
    fetched data start lengths = (data.drop start).take (lengths.map Nat.succ).sum := by
  induction lengths generalizing start with
  | nil => simp [fetched]
  | cons n lengths ih =>
    rw [List.map_cons, List.sum_cons] at h ⊢
    rw [fetched, rangeReply_body (by omega), ih _ (by omega), Nat.succ_eq_add_one, List.take_add (i := n + 1),
      List.drop_drop]
    rfl

/-- A part is the bytes that its header names, and the parts that a client asks for one after the other are the whole. -/
theorem ranges_join (data : List β) :
    (∀ header, (rangeReply data header).status = 206 → ∃ start last, start ≤ last ∧ last < data.length ∧
      (rangeReply data header).headers = [("Accept-Ranges", "bytes".toList), ("Content-Range", contentRange start last data.length)] ∧
      (rangeReply data header).body = (data.drop start).take (last + 1 - start)) ∧
    ∀ lengths : List Nat, data.length ≤ (lengths.map Nat.succ).sum → (lengths.map Nat.succ).sum ≤ 10 ^ maxStrDigits →
      fetched data 0 lengths = data := by
  refine ⟨fun header hStatus => ?_, fun lengths hLong hDigits => ?_⟩
  · rw [rangeReply] at hStatus ⊢
    cases hParse : parseByteRange header data.length with
    | none =>
      rw [hParse] at hStatus
      cases hStatus
    | some range =>
      cases range with
      | none =>
        rw [hParse] at hStatus
        cases hStatus
      | some range =>
        obtain ⟨hStart, hLe, hLast⟩ := parseByteRange_inside hParse
        obtain ⟨start, last⟩ := range
        obtain ⟨start, rfl⟩ := Int.eq_ofNat_of_zero_le hStart
        obtain ⟨last, rfl⟩ := Int.eq_ofNat_of_zero_le (hStart.trans hLe)
        dsimp only at hLe hLast
        exact ⟨start, last, by omega, by omega, rfl, slice_eq data start last⟩
  · rw [fetched_eq data 0 lengths (by omega), List.drop_zero, List.take_of_length_le hLong]

theorem ranges_join_ten : fetched (List.range 10) 0 [2, 0, 9] = List.range 10 :=
  (ranges_join (List.range 10)).2 [2, 0, 9] (by decide)
    (le_trans (by decide) (Nat.pow_le_pow_right (by decide) (by decide : 2 ≤ maxStrDigits)))

end Bajutsu.Serve.ByteRange
