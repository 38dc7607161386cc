import Bajutsu.Lib.PyText
import Bajutsu.Lib.RegexLanguage
import Bajutsu.Lib.RegexSearch

/-!
# The names of a data table's rows

A row of a data table is run as a scenario of its own, under the scenario's name with a suffix for the row. What reads
the name of a run back cuts a suffix of that shape off.
-/

namespace Bajutsu.Scenarios.RowNames

open PyText Regex

abbrev Row := List (String × String)

/-- `_row_name`. -/
def rowName (scenarioName : String) (row : Row) (index : Nat) : String :=
  let kv := ", ".intercalate (row.map fun (key, value) => key ++ "=" ++ value)
  if kv ≠ "" then scenarioName ++ " [row " ++ String.ofList (decimal (index + 1)) ++ ": " ++ kv ++ "]"
  else scenarioName ++ " [row " ++ String.ofList (decimal (index + 1)) ++ "]"

/-- The names that `_instantiate_rows` gives. -/
def rowNames (scenarioName : String) (rows : List Row) : List String := rows.mapIdx fun index row => rowName scenarioName row index

def reading : Reading Char := ⟨id, fun _ => false⟩

/-- `_ROW_NAME` up to its `$`. -/
def rowSuffix : Re :=
  .seq (.text " [row ") (.seq (.atLeast 1 (.cls isDigit))
    (.seq (.optional (.seq (.char ':') (.star true (.cls fun _ => true)))) (.char ']')))

/-- What `$` stands at: the end, or a line break that is the last character. -/
def atEnd (rest : List Char) : Bool := rest = [] || rest = ['\n']

/-- The first match of the pattern at a position. -/
def cutRow (st : At Char) : Option (List Char × At Char) :=
  ((run reading rowSuffix st).find? fun fin => atEnd fin.rest).map fun fin => ([], fin)

def declaredName (runScenario : String) : String :=
  String.ofList (replaceAll reading cutRow runScenario.toList.length ⟨false, runScenario.toList⟩)

/-! ## What the pattern takes -/

def opening : List Char := " [row ".toList

/-- A row's suffix: its number, and what follows it. -/
def suffix (digits tail : List Char) : List Char := opening ++ digits ++ tail ++ [']']

def AllDigits (digits : List Char) : Prop := digits ≠ [] ∧ ∀ c ∈ digits, isDigit c = true

def IsTail (tail : List Char) : Prop := tail = [] ∨ ∃ kv, tail = ':' :: kv

theorem accepts_rowSuffix {taken : List Char} :
    Accepts reading rowSuffix taken ↔ ∃ digits tail, AllDigits digits ∧ IsTail tail ∧ taken = suffix digits tail := by
  have hTail (tail : List Char) :
      Accepts reading (.optional (.seq (.char ':') (.star true (.cls fun _ => true)))) tail ↔ IsTail tail := by
    rw [accepts_optional, accepts_seq, IsTail, or_comm]
    apply or_congr_right
    constructor
    · rintro ⟨_, kv, hColon, -, rfl⟩
      obtain ⟨c, rfl, rfl⟩ := accepts_char.mp hColon
      exact ⟨kv, rfl⟩
    · rintro ⟨kv, rfl⟩
      exact ⟨[':'], kv, accepts_char.mpr ⟨':', rfl, rfl⟩, accepts_star_cls.mpr fun _ _ => rfl, rfl⟩
  have hText (text : List Char) : Accepts reading (.text " [row ") text ↔ text = opening := by
    rw [accepts_text]
    exact Iff.of_eq (congrArg (· = opening) (List.map_id text))
  rw [rowSuffix, accepts_seq]
  constructor
  · rintro ⟨front, _, hFront, hRest, rfl⟩
    obtain ⟨digits, _, hDigits, hMore, rfl⟩ := accepts_seq.mp hRest
    obtain ⟨tail, last, hIsTail, hLast, rfl⟩ := accepts_seq.mp hMore
    obtain ⟨c, rfl, rfl⟩ := accepts_char.mp hLast
    obtain rfl := (hText front).mp hFront
    exact ⟨digits, tail, accepts_some_cls.mp hDigits, (hTail tail).mp hIsTail, by simp [suffix]⟩
  · rintro ⟨digits, tail, hDigits, hIsTail, rfl⟩
    refine ⟨opening, digits ++ (tail ++ [']']), (hText opening).mpr rfl, ?_, by simp [suffix]⟩
    refine accepts_seq.mpr ⟨digits, tail ++ [']'], accepts_some_cls.mpr hDigits, ?_, rfl⟩
    exact accepts_seq.mpr ⟨tail, [']'], (hTail tail).mpr hIsTail, accepts_char.mpr ⟨']', rfl, rfl⟩, rfl⟩

/-! ## Where a suffix is cut -/

/-- The text begins like a suffix that has more behind its number. -/
def Opens (text : List Char) : Prop := ∃ digits after, AllDigits digits ∧ text = opening ++ digits ++ ':' :: after

theorem suffix_eq_cons (digits tail : List Char) : suffix digits tail = ' ' :: '[' :: ("row ".toList ++ digits ++ tail ++ [']']) :=
  rfl

theorem rest_of_atEnd {taken rest before digits tail : List Char} (hEnd : atEnd rest = true)
    (h : before ++ suffix digits tail = taken ++ rest) : rest = [] := by
  simp only [atEnd, Bool.or_eq_true, decide_eq_true_eq] at hEnd
  obtain hEnd | rfl := hEnd
  · exact hEnd
  · rw [suffix, ← List.append_assoc] at h
    have hLast := (List.append_inj' h rfl).2
    exact absurd hLast (by decide)

theorem cutRow_some {w : Bool} {before digits tail out : List Char} {fin : At Char}
    (h : cutRow ⟨w, before ++ suffix digits tail⟩ = some (out, fin)) :
    out = [] ∧ fin.rest = [] ∧ Accepts reading rowSuffix (before ++ suffix digits tail) := by
  obtain ⟨end_, hFind, hPair⟩ := Option.map_eq_some_iff.mp h
  cases hPair
  have hAtEnd := List.find?_some hFind
  obtain ⟨taken, hTaken, hText⟩ := accepts_of_run (List.mem_of_find?_eq_some hFind)
  have hRest := rest_of_atEnd hAtEnd hText
  rw [hRest, List.append_nil] at hText
  refine ⟨rfl, hRest, ?_⟩
  rw [show before ++ suffix digits tail = taken from hText]
  exact hTaken

theorem cutRow_isSome {w : Bool} {text : List Char} (h : Accepts reading rowSuffix text) : (cutRow ⟨w, text⟩).isSome := by
  obtain ⟨fin, hFin, hRest⟩ := run_of_accepts h rfl w []
  rw [List.append_nil] at hFin
  rw [cutRow, Option.isSome_map, List.find?_isSome]
  exact ⟨fin, hFin, by rw [hRest]; rfl⟩

theorem split_before {front rest back after : List Char} (h : back ++ ' ' :: '[' :: after = front ++ rest)
    (hNot : '[' ∉ front) (hLast : ∀ init, front ≠ init ++ [' ']) :
    ∃ more, back = front ++ more ∧ rest = more ++ ' ' :: '[' :: after := by
  obtain ⟨more, hFront, hRest⟩ | ⟨more, hBack, hRest⟩ := List.append_eq_append_iff.mp h
  · cases more with
    | nil => exact ⟨[], by simpa using hFront.symm, by simpa using hRest.symm⟩
    | cons c more =>
      obtain ⟨rfl, hMore⟩ := List.cons.inj hRest
      cases more with
      | nil => exact absurd hFront (hLast back)
      | cons d more =>
        obtain ⟨rfl, -⟩ := List.cons.inj hMore
        exact absurd (by simp [hFront]) hNot
  · exact ⟨more, hBack, hRest⟩

theorem not_mem_number {digits : List Char} (hDigits : AllDigits digits) {sep : Char} (hSep : sep ≠ '[') :
    '[' ∉ "row ".toList ++ digits ++ [sep] := by
  have hDigit : '[' ∉ digits := fun hMem => absurd (hDigits.2 '[' hMem) (by decide)
  simp [hDigit, hSep.symm]

/-- In front of a row's suffix, a match begins only where the text itself opens one. -/
theorem accepts_front_iff {back digits tail : List Char} (hBack : back ≠ []) :
    Accepts reading rowSuffix (back ++ suffix digits tail) ↔ Opens back := by
  rw [accepts_rowSuffix]
  constructor
  · rintro ⟨inner, more, hInner, hMore, hText⟩
    obtain ⟨sep, rest, hSep, hSuffix, hIf⟩ : ∃ sep rest, sep ≠ '[' ∧ suffix inner more =
        ' ' :: '[' :: (("row ".toList ++ inner ++ [sep]) ++ rest) ∧ sep ≠ ' ' ∧ (rest = [] ∨ sep = ':') := by
      obtain rfl | ⟨kv, rfl⟩ := hMore
      · exact ⟨']', [], by decide, by simp [suffix_eq_cons], by decide, .inl rfl⟩
      · exact ⟨':', kv ++ [']'], by decide, by simp [suffix_eq_cons], by decide, .inr rfl⟩
    rw [hSuffix, suffix_eq_cons] at hText
    -- The text of `back` goes beyond the number, for the two brackets would be one otherwise.
    obtain ⟨c, d, back, rfl⟩ : ∃ c d tail, back = c :: d :: tail := by
      match back, hBack with
      | [c], _ =>
        obtain ⟨-, hSecond⟩ := List.cons.inj hText
        exact absurd (List.cons.inj hSecond).1 (by decide)
      | c :: d :: tail, _ => exact ⟨c, d, tail, rfl⟩
    obtain ⟨rfl, hBracket⟩ := List.cons.inj hText
    obtain ⟨rfl, hNumber⟩ := List.cons.inj hBracket
    obtain ⟨after, rfl, hRest⟩ := split_before hNumber (not_mem_number hInner hSep) fun init hInit =>
      hIf.1 (List.cons.inj (List.append_inj' hInit rfl).2).1
    obtain hNil | rfl := hIf.2
    · rw [hNil] at hRest
      simp at hRest
    · exact ⟨inner, after, hInner, by simp [opening]⟩
  · rintro ⟨inner, after, hInner, rfl⟩
    refine ⟨inner, ':' :: (after ++ opening ++ digits ++ tail), hInner, .inr ⟨_, rfl⟩, ?_⟩
    simp [suffix]

/-! ## A name and its row -/

theorem cutRow_front {w : Bool} {back digits tail : List Char} (hBack : back ≠ []) (hNot : ¬Opens back) : cutRow ⟨w, back ++ suffix digits tail⟩ = none := by
  cases hCut : cutRow ⟨w, back ++ suffix digits tail⟩ with
  | none => rfl
  | some found => exact absurd ((accepts_front_iff hBack).mp (cutRow_some hCut).2.2) hNot

theorem replaceAll_cut {w : Bool} {before digits tail : List Char} {n : Nat}
    (h : Accepts reading rowSuffix (before ++ suffix digits tail)) :
    replaceAll reading cutRow (n + 1) ⟨w, before ++ suffix digits tail⟩ = [] := by
  obtain ⟨⟨out, fin⟩, hCut⟩ := Option.isSome_iff_exists.mp (@cutRow_isSome w _ h)
  obtain ⟨rfl, hRest, -⟩ := cutRow_some hCut
  obtain ⟨c, text, hText⟩ : ∃ c text, before ++ suffix digits tail = c :: text :=
    List.exists_cons_of_ne_nil (by simp [suffix_eq_cons])
  rw [hText] at hCut ⊢
  rw [replaceAll, hCut]
  simp only [hRest, List.length_nil, Nat.zero_le, if_true, List.nil_append]
  obtain ⟨afterWord, rest⟩ := fin
  obtain rfl : rest = [] := hRest
  cases n <;> rfl

/-- What is left of a row's name is all of the scenario's name, up to where that opens a suffix of its own. -/
theorem replaceAll_row (w : Bool) (name : List Char) {digits tail : List Char} (hDigits : AllDigits digits)
    (hTail : IsTail tail) :
    (replaceAll reading cutRow (name ++ suffix digits tail).length ⟨w, name ++ suffix digits tail⟩).length ≤ name.length ∧
      (replaceAll reading cutRow (name ++ suffix digits tail).length ⟨w, name ++ suffix digits tail⟩ = name ↔
        ∀ before after, name = before ++ after → ¬Opens after) := by
  induction name generalizing w with
  | nil =>
    have hOwn : Accepts reading rowSuffix ([] ++ suffix digits tail) := accepts_rowSuffix.mpr ⟨digits, tail, hDigits, hTail, rfl⟩
    have hCut : replaceAll reading cutRow ([] ++ suffix digits tail).length ⟨w, [] ++ suffix digits tail⟩ = [] :=
      replaceAll_cut hOwn
    rw [hCut]
    refine ⟨Nat.le_refl _, iff_of_true rfl ?_⟩
    rintro before after hNil ⟨inner, more, -, rfl⟩
    simp [opening] at hNil
  | cons c name ih =>
    by_cases hOpens : Opens (c :: name)
    · have hCut : replaceAll reading cutRow (c :: name ++ suffix digits tail).length ⟨w, c :: name ++ suffix digits tail⟩ = [] :=
        replaceAll_cut ((accepts_front_iff (List.cons_ne_nil c name)).mpr hOpens)
      rw [hCut]
      exact ⟨Nat.zero_le _, iff_of_false nofun fun h => h [] _ rfl hOpens⟩
    · have hNone := @cutRow_front w _ digits tail (List.cons_ne_nil c name) hOpens
      have hStep : replaceAll reading cutRow (c :: name ++ suffix digits tail).length ⟨w, c :: name ++ suffix digits tail⟩ =
          c :: replaceAll reading cutRow (name ++ suffix digits tail).length ⟨false, name ++ suffix digits tail⟩ := by
        rw [List.cons_append] at hNone ⊢
        rw [List.length_cons, replaceAll, hNone]
        rfl
      obtain ⟨hLength, hIff⟩ := ih false
      rw [hStep]
      refine ⟨Nat.succ_le_succ hLength, ?_⟩
      rw [List.cons_inj_right, hIff]
      constructor
      · intro h before after hSplit
        cases before with
        | nil =>
          rw [List.nil_append] at hSplit
          rwa [← hSplit]
        | cons d before => exact h before after (List.cons.inj hSplit).2
      · intro h before after hSplit
        exact h (c :: before) after (by rw [hSplit, List.cons_append])

theorem allDigits_decimal (n : Nat) : AllDigits (decimal n) := ⟨decimal_ne_nil n, fun _ h => isDigit_of_mem_decimal h⟩

theorem rowName_toList (name : String) (row : Row) (index : Nat) :
    ∃ tail, IsTail tail ∧ (rowName name row index).toList = name.toList ++ suffix (decimal (index + 1)) tail := by
  rw [rowName]
  split
  · refine ⟨':' :: ' ' :: (", ".intercalate (row.map fun (key, value) => key ++ "=" ++ value)).toList, .inr ⟨_, rfl⟩, ?_⟩
    simp [suffix, opening]
  · exact ⟨[], .inl rfl, by simp [suffix, opening]⟩

/-- The name itself opens a row's suffix somewhere. -/
def OpensRow (name : String) : Prop := ∃ before after, name.toList = before ++ after ∧ Opens after

theorem declaredName_iff (name : String) (row : Row) (index : Nat) :
    declaredName (rowName name row index) = name ↔ ¬OpensRow name := by
  obtain ⟨tail, hTail, hText⟩ := rowName_toList name row index
  rw [declaredName, hText, ← String.toList_inj, String.toList_ofList,
    (replaceAll_row false name.toList (allDigits_decimal (index + 1)) hTail).2, OpensRow]
  constructor
  · rintro h ⟨before, after, hSplit, hOpens⟩
    exact h before after hSplit hOpens
  · intro h before after hSplit hOpens
    exact h ⟨before, after, hSplit, hOpens⟩

theorem suffix_number {n m : Nat} {tail tail' : List Char} (hTail : IsTail tail) (hTail' : IsTail tail')
    (h : suffix (decimal n) tail = suffix (decimal m) tail') : n = m := by
  have hNumber (n : Nat) {tail : List Char} (hTail : IsTail tail) :
      (decimal n ++ (tail ++ [']'])).takeWhile isDigit = decimal n := by
    apply (takeWhile_dropWhile_append (fun _ h => isDigit_of_mem_decimal h) _).1
    obtain rfl | ⟨kv, rfl⟩ := hTail
    · rintro _ ⟨⟩
      decide
    · rintro _ ⟨⟩
      decide
  rw [suffix, suffix, List.append_assoc, List.append_assoc, List.append_assoc, List.append_assoc] at h
  have hRest := List.append_cancel_left h
  have hDecimal : decimal n = decimal m := by rw [← hNumber n hTail, ← hNumber m hTail', hRest]
  rw [← natOf_decimal n, ← natOf_decimal m, hDecimal]

theorem rowName_inj {name : String} {row row' : Row} {index index' : Nat}
    (h : rowName name row index = rowName name row' index') : index = index' := by
  obtain ⟨tail, hTail, hText⟩ := rowName_toList name row index
  obtain ⟨tail', hTail', hText'⟩ := rowName_toList name row' index'
  rw [h, hText'] at hText
  have hNumber := suffix_number hTail' hTail (List.append_cancel_left hText)
  omega

theorem rowNames_nodup (name : String) (rows : List Row) : (rowNames name rows).Nodup := by
  rw [List.Nodup, List.pairwise_iff_getElem]
  intro i j hi hj hLess hSame
  simp only [rowNames, List.getElem_mapIdx] at hSame
  have := rowName_inj hSame
  omega

theorem mem_rowNames {name n : String} {rows : List Row} :
    n ∈ rowNames name rows ↔ ∃ index, ∃ h : index < rows.length, rowName name rows[index] index = n := by
  rw [rowNames, List.mem_mapIdx]

/-- The names of a table's rows are read back, and told apart, unless the scenario's own name opens a row's suffix. -/
theorem row_names_invertible_iff (name : String) (rows : List Row) :
    ((∀ n ∈ rowNames name rows, declaredName n = name) ∧ (rowNames name rows).Nodup) ↔ rows = [] ∨ ¬OpensRow name := by
  rw [and_iff_left (rowNames_nodup name rows)]
  constructor
  · intro h
    cases rows with
    | nil => exact .inl rfl
    | cons row rows =>
      have hFirst := h _ (mem_rowNames.mpr ⟨0, Nat.succ_pos _, rfl⟩)
      exact .inr ((declaredName_iff name row 0).mp hFirst)
  · rintro (rfl | hPlain) n hMem
    · cases hMem
    · obtain ⟨index, hIndex, rfl⟩ := mem_rowNames.mp hMem
      exact (declaredName_iff name rows[index] index).mpr hPlain

/-- A scenario named for a row is read back without that part of its name. -/
theorem row_of_row_cut : ¬∀ name rows, (∀ n ∈ rowNames name rows, declaredName n = name) ∧ (rowNames name rows).Nodup := by
  intro h
  have hName : rowNames "grid [row 1: left]" [[("k", "v")]] = ["grid [row 1: left] [row 1: k=v]"] := by decide +kernel
  have hCut : declaredName "grid [row 1: left] [row 1: k=v]" = "grid" := by decide +kernel
  have hSame := (h "grid [row 1: left]" [[("k", "v")]]).1 "grid [row 1: left] [row 1: k=v]" (by rw [hName]; exact List.mem_singleton_self _)
  rw [hCut] at hSame
  exact absurd hSame (by decide)

end Bajutsu.Scenarios.RowNames
