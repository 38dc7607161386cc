import Bajutsu.Evidence.Redaction

/-!
# Redaction and the secret

Two runs that differ in the secret alone. Where each key pattern takes the secret whole or leaves it
whole, the redacted texts are equal; a pattern that takes only its first part leaves the rest behind.
-/

namespace Bajutsu.Evidence

open Regex Occurrence

/-- A value as it is and as it is encoded. -/
def forms (value : List Char) : List (List Char) := value :: encodedVariants value

/-- What the redactor writes for a value. -/
def written : List (List Char) := [placeholder.toList, ['"'] ++ placeholder.toList ++ ['"']]

/-- The value occurs at one place, and neither it nor an encoding of it overlaps the placeholder. -/
structure Placed (value before after : List Char) : Prop where
  nonempty : value ≠ []
  onlyAt : OnlyAt value before after
  clear : ∀ term ∈ forms value, Clear term placeholder.toList

/-- The value is in the text as it is only: its encodings occur nowhere, no form of it overlaps the
quoted placeholder, and no Basic token that the key patterns leave carries it. -/
structure Plain (rt : Runtime) (keys : List (List Char)) (value before after : List Char) : Prop where
  quoted : ∀ term ∈ forms value, Clear term (['"'] ++ placeholder.toList ++ ['"'])
  encodings : ∀ term ∈ encodedVariants value, ¬term <:+: before ++ value ++ after
  tokens : ∀ token out, .replaced token out ∉
    Redactor.basicCut rt [value] (Redactor.keyPass rt (rt.patterns keys) (before ++ value ++ after))

/-- Each pattern in turn cuts both texts alike: it leaves both values whole, or takes both whole. -/
inductive Uncut (rt : Runtime) (v w : List Char) :
    List (Keyed × List Char) → List Char → List Char → Prop where
  | done (before after : List Char) : Uncut rt v w [] before after
  | left {pattern : Keyed × List Char} {patterns : List (Keyed × List Char)}
      {earlier later : List (Piece Char)} {before after : List Char} (hBefore : source earlier = before)
      (hFirst : Redactor.keyCut rt pattern (before ++ v ++ after) = earlier ++ allKept v ++ later)
      (hSecond : Redactor.keyCut rt pattern (before ++ w ++ after) = earlier ++ allKept w ++ later)
      (hRest : Uncut rt v w patterns (result earlier) (result later)) :
      Uncut rt v w (pattern :: patterns) before after
  | taken {pattern : Keyed × List Char} {patterns : List (Keyed × List Char)}
      {earlier later : List (Piece Char)} {front back out before after : List Char}
      (hBefore : source earlier ++ front = before)
      (hFirst : Redactor.keyCut rt pattern (before ++ v ++ after) =
        earlier ++ .replaced (front ++ v ++ back) out :: later)
      (hSecond : Redactor.keyCut rt pattern (before ++ w ++ after) =
        earlier ++ .replaced (front ++ w ++ back) out :: later) :
      Uncut rt v w (pattern :: patterns) before after

/-! ## Encodings -/

theorem length_le_flatMap {f : Char → List Char} (hf : ∀ c, 0 < (f c).length) (value : List Char) :
    value.length ≤ (value.flatMap f).length := by
  induction value with
  | nil => exact Nat.zero_le _
  | cons c value ih =>
    rw [List.flatMap_cons, List.length_append, List.length_cons]
    have hHead := hf c
    omega

theorem quoteChar_length (safe : List Char) (c : Char) : 0 < (quoteChar safe c).length := by
  rw [quoteChar]
  split
  · exact Nat.one_pos
  · obtain ⟨byte, bytes, hBytes⟩ := List.exists_cons_of_ne_nil (String.utf8EncodeChar_ne_nil (c := c))
    rw [hBytes, List.flatMap_cons, percentByte]
    simp

theorem escapeChar_length (c : Char) : 0 < (escapeChar c).length := by
  rw [escapeChar]
  repeat' split
  all_goals simp

theorem jsonChar_length (c : Char) : 0 < (jsonChar c).length := by
  rw [jsonChar]
  repeat' split
  all_goals simp [unicodeEscape]

theorem length_le_of_mem_forms {value term : List Char} (h : term ∈ forms value) :
    value.length ≤ term.length := by
  rcases List.mem_cons.mp h with rfl | h
  · exact Nat.le_refl _
  have hMem := (List.mem_filter.mp h).1
  simp only [List.mem_cons, List.not_mem_nil, or_false] at hMem
  rcases hMem with rfl | rfl | rfl | rfl | rfl
  · exact length_le_flatMap (quoteChar_length _) value
  · exact length_le_flatMap (quoteChar_length _) value
  · rw [quotePlus]
    split
    · rw [List.length_map]
      exact length_le_flatMap (quoteChar_length _) value
    · exact length_le_flatMap (quoteChar_length _) value
  · exact length_le_flatMap escapeChar_length value
  · exact length_le_flatMap jsonChar_length value

theorem forms_ne_nil {value term : List Char} (hValue : value ≠ []) (h : term ∈ forms value) :
    term ≠ [] := by
  rintro rfl
  have hLength := length_le_of_mem_forms h
  exact hValue (List.length_eq_zero_iff.mp (Nat.le_zero.mp hLength))

theorem mem_searchTerms (rt : Runtime) (value term : List Char) :
    term ∈ rt.searchTerms [value] ↔ term ∈ forms value := by
  rw [Runtime.searchTerms, List.mem_insertionSort, (rt.setOrder_perm _).mem_iff, List.mem_dedup]
  simp [forms]

theorem mem_searchTerms_all {rt : Runtime} {values : List (List Char)} {term : List Char} (h : term ∈ rt.searchTerms values) :
    ∃ value ∈ values, term ∈ forms value := by
  rw [Runtime.searchTerms, List.mem_insertionSort, (rt.setOrder_perm _).mem_iff, List.mem_dedup,
    List.mem_append, List.mem_flatMap] at h
  obtain hValue | ⟨value, hValue, hTerm⟩ := h
  · exact ⟨term, hValue, List.mem_cons_self⟩
  · exact ⟨value, hValue, List.mem_cons_of_mem _ hTerm⟩

/-! ## One text through the key patterns -/

/-- The value stands in the text as it is, at one place and nowhere encoded. -/
structure Alone (value before after : List Char) : Prop where
  nonempty : value ≠ []
  onlyAt : OnlyAt value before after
  clear : ∀ term ∈ forms value, ∀ out ∈ written, Clear term out
  encodings : ∀ term ∈ encodedVariants value, ¬term <:+: before ++ value ++ after

/-- No form of the value is left in the text. -/
structure Gone (value text : List Char) : Prop where
  nonempty : value ≠ []
  clear : ∀ term ∈ forms value, ∀ out ∈ written, Clear term out
  absent : ∀ term ∈ forms value, ¬term <:+: text

theorem someOf_takes {R : Reading Char} {holds : Char → Bool} {mid fin : At Char}
    (h : fin ∈ run R (someOf holds) mid) :
    ∃ taken c, mid.rest = taken ++ [c] ++ fin.rest ∧ holds (R.char c) = true := by
  obtain ⟨next, hNext, hFin⟩ := List.mem_flatMap.mp h
  obtain ⟨one, hOne, hNext⟩ := List.mem_flatMap.mp hNext
  obtain rfl := List.mem_singleton.mp hNext
  obtain ⟨w, _ | ⟨x, rest⟩⟩ := mid
  · cases hOne
  · simp only [run] at hOne
    split at hOne
    · rename_i hHolds
      obtain rfl := List.mem_singleton.mp hOne
      obtain ⟨more, hMore, hAll⟩ := run_taken R hFin
      rcases List.eq_nil_or_concat more with rfl | ⟨front, c, rfl⟩
      · exact ⟨[], x, by simpa using hMore, by simpa using hHolds⟩
      · refine ⟨x :: front, c, ?_, by simpa [Re.accepts] using hAll c (by simp)⟩
        rw [List.cons_append, List.cons_append]
        exact congrArg (x :: ·) (by simpa using hMore)
    · cases hOne

theorem someOf_value {rt : Runtime} {holds : Char → Bool} (hBreak : holds '\n' = false)
    {mid fin : At Char} (h : fin ∈ run rt.reading (someOf holds) mid) :
    ∃ taken c, mid.rest = taken ++ [c] ++ fin.rest ∧ c ≠ '\n' := by
  obtain ⟨taken, c, hTaken, hHolds⟩ := someOf_takes h
  refine ⟨taken, c, hTaken, ?_⟩
  rintro rfl
  rw [show rt.reading.char '\n' = '\n' from rfl, hBreak] at hHolds
  cases hHolds

/-- The value of every key pattern ends in a character that is no newline. -/
theorem patterns_value {rt : Runtime} {keys : List (List Char)} {pattern : Keyed × List Char}
    (hPattern : pattern ∈ rt.patterns keys) {mid fin : At Char}
    (h : fin ∈ run rt.reading pattern.1.value mid) :
    ∃ taken c, mid.rest = taken ++ [c] ++ fin.rest ∧ c ≠ '\n' := by
  obtain ⟨key, -, hPattern⟩ := List.mem_flatMap.mp hPattern
  simp only [List.mem_cons, List.not_mem_nil, or_false] at hPattern
  rcases hPattern with rfl | rfl | rfl
  · rcases List.mem_append.mp h with h | h
    · obtain ⟨opened, hOpened, h⟩ := List.mem_flatMap.mp h
      obtain ⟨body, hBody, hClosed⟩ := List.mem_flatMap.mp h
      obtain ⟨mark, hMark, -⟩ := run_taken rt.reading hOpened
      obtain ⟨inner, hInner, -⟩ := run_taken rt.reading hBody
      obtain ⟨w, _ | ⟨c, rest⟩⟩ := body
      · cases hClosed
      · simp only [Re.char, run] at hClosed
        split at hClosed
        · rename_i hQuote
          obtain rfl := List.mem_singleton.mp hClosed
          refine ⟨mark ++ inner, c, ?_, ?_⟩
          · rw [hMark, hInner]
            simp
          · rintro rfl
            rw [show rt.reading.char '\n' = '\n' from rfl] at hQuote
            exact absurd hQuote (by decide)
        · cases hClosed
    · exact someOf_value (by decide) h
  · exact someOf_value (by decide) h
  · exact someOf_value (by decide) h

theorem patterns_takesValue {rt : Runtime} {keys : List (List Char)} {pattern : Keyed × List Char}
    (hPattern : pattern ∈ rt.patterns keys) : pattern.1.TakesValue rt.reading := by
  intro mid fin h
  obtain ⟨taken, c, hTaken, -⟩ := patterns_value hPattern h
  rw [hTaken]
  simp only [List.length_append, List.length_singleton]
  omega

theorem patterns_written {rt : Runtime} {keys : List (List Char)} {pattern : Keyed × List Char}
    (hPattern : pattern ∈ rt.patterns keys) : pattern.2 ∈ written := by
  obtain ⟨key, -, hPattern⟩ := List.mem_flatMap.mp hPattern
  simp only [List.mem_cons, List.not_mem_nil, or_false] at hPattern
  rcases hPattern with rfl | rfl | rfl <;> simp [written]

theorem keyCut_clearOf {rt : Runtime} {pattern : Keyed × List Char} (hWritten : pattern.2 ∈ written)
    {term : List Char} (hClear : ∀ out ∈ written, Clear term out) (text : List Char) :
    ClearOf term (Redactor.keyCut rt pattern text) := by
  intro token out hMem
  cases Keyed.replaced_mem hMem
  exact hClear _ hWritten

theorem keyCut_solid {rt : Runtime} {keys : List (List Char)} {pattern : Keyed × List Char}
    (hPattern : pattern ∈ rt.patterns keys) (text : List Char) :
    Solid (Redactor.keyCut rt pattern text) :=
  Keyed.solid_pieces (patterns_takesValue hPattern) _ _ _

section Pass

variable {rt : Runtime} {keys : List (List Char)} {pattern : Keyed × List Char} {value : List Char}

theorem Gone.pass {text : List Char} (h : Gone value text) (hPattern : pattern ∈ rt.patterns keys) :
    Gone value (result (Redactor.keyCut rt pattern text)) where
  nonempty := h.nonempty
  clear := h.clear
  absent term hTerm := by
    apply absent_result (forms_ne_nil h.nonempty hTerm)
    · exact keyCut_clearOf (patterns_written hPattern) (h.clear term hTerm) text
    · rw [Redactor.keyCut, Keyed.source_cut]
      exact h.absent term hTerm

theorem Alone.encoding_absent {before after : List Char} (h : Alone value before after)
    (hPattern : pattern ∈ rt.patterns keys) {term : List Char} (hTerm : term ∈ encodedVariants value) :
    ¬term <:+: result (Redactor.keyCut rt pattern (before ++ value ++ after)) := by
  have hForm : term ∈ forms value := List.mem_cons_of_mem value hTerm
  apply absent_result (forms_ne_nil h.nonempty hForm)
  · exact keyCut_clearOf (patterns_written hPattern) (h.clear term hForm) _
  · rw [Redactor.keyCut, Keyed.source_cut]
    exact h.encodings term hTerm

theorem Alone.left {before after : List Char} (h : Alone value before after)
    (hPattern : pattern ∈ rt.patterns keys) {earlier later : List (Piece Char)}
    (hBefore : source earlier = before)
    (hCut : Redactor.keyCut rt pattern (before ++ value ++ after) = earlier ++ allKept value ++ later) :
    Alone value (result earlier) (result later) := by
  have hClear := @keyCut_clearOf rt pattern (patterns_written hPattern) value
    (h.clear value List.mem_cons_self) (before ++ value ++ after)
  have hSolid := keyCut_solid hPattern (before ++ value ++ after)
  have hSource : source (earlier ++ allKept value ++ later) = before ++ value ++ after := by
    rw [← hCut]
    exact Keyed.source_cut _ _ _
  rw [hCut] at hClear hSolid
  have hAfter : source later = after := by
    rw [source_append, source_append, source_allKept, hBefore] at hSource
    exact List.append_cancel_left hSource
  refine ⟨h.nonempty, h.onlyAt.of_kept h.nonempty hClear hSolid hBefore hAfter, h.clear, ?_⟩
  intro term hTerm
  have hAbsent := h.encoding_absent hPattern hTerm
  rwa [hCut, result_append, result_append, result_allKept] at hAbsent

theorem Alone.taken {before after : List Char} (h : Alone value before after)
    (hPattern : pattern ∈ rt.patterns keys) {earlier later : List (Piece Char)} {front back out : List Char}
    (hBefore : source earlier ++ front = before)
    (hCut : Redactor.keyCut rt pattern (before ++ value ++ after) =
      earlier ++ .replaced (front ++ value ++ back) out :: later) :
    Gone value (result (earlier ++ .replaced (front ++ value ++ back) out :: later)) := by
  have hClear := @keyCut_clearOf rt pattern (patterns_written hPattern) value
    (h.clear value List.mem_cons_self) (before ++ value ++ after)
  have hSolid := keyCut_solid hPattern (before ++ value ++ after)
  have hSource : source (earlier ++ .replaced (front ++ value ++ back) out :: later) =
      before ++ value ++ after := by
    rw [← hCut]
    exact Keyed.source_cut _ _ _
  have hAfter : back ++ source later = after := by
    rw [source_append, source_cons, ← hBefore, Piece.source] at hSource
    simp only [List.append_assoc, List.append_cancel_left_eq] at hSource
    exact hSource
  refine ⟨h.nonempty, h.clear, ?_⟩
  intro term hTerm
  rcases List.mem_cons.mp hTerm with rfl | hTerm
  · rw [hCut] at hClear hSolid
    exact h.onlyAt.of_replaced h.nonempty hClear hSolid hBefore hAfter
  · rw [← hCut]
    exact h.encoding_absent hPattern hTerm

theorem Gone.keyPass {patterns : List (Keyed × List Char)} {text : List Char} (h : Gone value text)
    (hAll : ∀ pattern ∈ patterns, pattern ∈ rt.patterns keys) :
    Gone value (Redactor.keyPass rt patterns text) := by
  induction patterns generalizing text with
  | nil => exact h
  | cons pattern patterns ih =>
    obtain ⟨hPattern, hAll⟩ := List.forall_mem_cons.mp hAll
    exact ih (h.pass hPattern) hAll

/-- Two texts that no pattern cuts end up alike: both still hold the value whole, at the same place, or
they are one text that holds neither. -/
theorem Uncut.keyPass {v w before after : List Char} {patterns : List (Keyed × List Char)}
    (h : Uncut rt v w patterns before after) (hAll : ∀ pattern ∈ patterns, pattern ∈ rt.patterns keys)
    (hv : Alone v before after) (hw : Alone w before after) :
    (∃ front back, Redactor.keyPass rt patterns (before ++ v ++ after) = front ++ v ++ back ∧
        Redactor.keyPass rt patterns (before ++ w ++ after) = front ++ w ++ back ∧
        Alone v front back ∧ Alone w front back) ∨
      ∃ text, Redactor.keyPass rt patterns (before ++ v ++ after) = text ∧
        Redactor.keyPass rt patterns (before ++ w ++ after) = text ∧ Gone v text ∧ Gone w text := by
  induction h with
  | done before after => exact .inl ⟨before, after, rfl, rfl, hv, hw⟩
  | left hBefore hFirst hSecond hRest ih =>
    obtain ⟨hPattern, hAll⟩ := List.forall_mem_cons.mp hAll
    have hOutcome := ih hAll (hv.left hPattern hBefore hFirst) (hw.left hPattern hBefore hSecond)
    simp only [Redactor.keyPass, List.foldl_cons, hFirst, hSecond, result_append, result_allKept]
    exact hOutcome
  | taken hBefore hFirst hSecond =>
    obtain ⟨hPattern, hAll⟩ := List.forall_mem_cons.mp hAll
    have hGoneFirst := (hv.taken hPattern hBefore hFirst).keyPass hAll
    have hGoneSecond := (hw.taken hPattern hBefore hSecond).keyPass hAll
    refine .inr ⟨_, rfl, ?_, ?_, ?_⟩
    · simp only [Redactor.keyPass, List.foldl_cons, hFirst, hSecond, result_append, result_cons,
        Piece.result]
    · simp only [Redactor.keyPass, List.foldl_cons, hFirst]
      exact hGoneFirst
    · simp only [Redactor.keyPass, List.foldl_cons, hFirst]
      simpa only [Redactor.keyPass, result_append, result_cons, Piece.result] using hGoneSecond

end Pass

/-! ## The value pass -/

theorem replaceTerms_absent {terms : List (List Char)} {text : List Char}
    (h : ∀ term ∈ terms, ¬term <:+: text) : Redactor.replaceTerms terms text = text := by
  induction terms with
  | nil => rfl
  | cons term terms ih =>
    obtain ⟨hTerm, hTerms⟩ := List.forall_mem_cons.mp h
    rw [Redactor.replaceTerms, List.foldl_cons, replace_absent hTerm]
    exact ih hTerms

theorem placeholder_mem_written : placeholder.toList ∈ written := List.mem_cons_self

theorem Alone.replaced {value before after : List Char} (h : Alone value before after) :
    Gone value (before ++ placeholder.toList ++ after) where
  nonempty := h.nonempty
  clear := h.clear
  absent term hTerm := by
    have hClear := h.clear term hTerm _ placeholder_mem_written
    rcases List.mem_cons.mp hTerm with rfl | hEncoding
    · have hGone := h.onlyAt.absent_replaced_self h.nonempty hClear
      exact hGone
    · exact absent_replaced (forms_ne_nil h.nonempty hTerm) hClear (h.encodings term hEncoding)

theorem Alone.replaceTerms {value before after : List Char} (h : Alone value before after)
    {terms : List (List Char)} (hTerms : ∀ term ∈ terms, term ∈ forms value) (hValue : value ∈ terms) :
    Redactor.replaceTerms terms (before ++ value ++ after) = before ++ placeholder.toList ++ after := by
  induction terms with
  | nil => cases hValue
  | cons term terms ih =>
    obtain ⟨hTerm, hTerms⟩ := List.forall_mem_cons.mp hTerms
    rw [Redactor.replaceTerms, List.foldl_cons]
    by_cases hSame : term = value
    · rw [hSame, h.onlyAt.replace h.nonempty]
      exact replaceTerms_absent fun other hOther => h.replaced.absent other (hTerms other hOther)
    · have hEncoding : term ∈ encodedVariants value := (List.mem_cons.mp hTerm).resolve_left hSame
      rw [replace_absent (h.encodings term hEncoding)]
      exact ih hTerms ((List.mem_cons.mp hValue).resolve_left fun hEq => hSame hEq.symm)

theorem searchTerms_nil (rt : Runtime) : rt.searchTerms [] = [] := by
  have hNil : rt.setOrder [] = [] := List.Perm.eq_nil (rt.setOrder_perm [])
  simp [Runtime.searchTerms, hNil]

theorem redactText_make (rt : Runtime) (keys : List (List Char)) {value text : List Char}
    (hValue : value ≠ [])
    (hTokens : ∀ token out, Piece.replaced token out ∉
      Redactor.basicCut rt [value] (Redactor.keyPass rt (rt.patterns keys) text)) :
    (Redactor.make keys [value]).redactText rt text =
      Redactor.replaceTerms (rt.searchTerms [value]) (Redactor.keyPass rt (rt.patterns keys) text) := by
  have hRaw : (Redactor.make keys [value]).rawValues = [value] := by simp [Redactor.make, hValue]
  have hBasic : result (Redactor.basicCut rt [value] (Redactor.keyPass rt (rt.patterns keys) text)) =
      Redactor.keyPass rt (rt.patterns keys) text := Keyed.result_of_none hTokens
  rw [Redactor.redactText, Redactor.redactDerived, show (Redactor.make keys [value]).derived = [] from rfl,
    searchTerms_nil, Redactor.redactValues, hRaw, if_neg (List.cons_ne_nil value []),
    Redactor.redactBasicAuth, hRaw]
  exact congrArg (Redactor.replaceTerms (rt.searchTerms [value])) hBasic

theorem Placed.alone {rt : Runtime} {keys : List (List Char)} {value before after : List Char}
    (h : Placed value before after) (hPlain : Plain rt keys value before after) :
    Alone value before after where
  nonempty := h.nonempty
  onlyAt := h.onlyAt
  clear term hTerm out hOut := by
    simp only [written, List.mem_cons, List.not_mem_nil, or_false] at hOut
    rcases hOut with rfl | rfl
    · exact h.clear term hTerm
    · exact hPlain.quoted term hTerm
  encodings := hPlain.encodings

/-- Where no key pattern cuts a value, the redacted text does not depend on it. -/
theorem redactText_uncut (rt : Runtime) (keys : List (List Char)) {v w before after : List Char}
    (hv : Placed v before after) (hw : Placed w before after) (hvPlain : Plain rt keys v before after)
    (hwPlain : Plain rt keys w before after) (hUncut : Uncut rt v w (rt.patterns keys) before after) :
    (Redactor.make keys [v]).redactText rt (before ++ v ++ after) =
      (Redactor.make keys [w]).redactText rt (before ++ w ++ after) := by
  have hTerms (value : List Char) : ∀ term ∈ rt.searchTerms [value], term ∈ forms value :=
    fun term hTerm => (mem_searchTerms rt value term).mp hTerm
  have hSelf (value : List Char) : value ∈ rt.searchTerms [value] :=
    (mem_searchTerms rt value value).mpr List.mem_cons_self
  rw [redactText_make rt keys hv.nonempty hvPlain.tokens,
    redactText_make rt keys hw.nonempty hwPlain.tokens]
  rcases hUncut.keyPass (fun _ h => h) (hv.alone hvPlain) (hw.alone hwPlain) with
    ⟨front, back, hFirst, hSecond, hvAlone, hwAlone⟩ | ⟨text, hFirst, hSecond, hvGone, hwGone⟩
  · rw [hFirst, hSecond, hvAlone.replaceTerms (hTerms v) (hSelf v),
      hwAlone.replaceTerms (hTerms w) (hSelf w)]
  · rw [hFirst, hSecond, replaceTerms_absent fun term hTerm => hvGone.absent term (hTerms v term hTerm),
      replaceTerms_absent fun term hTerm => hwGone.absent term (hTerms w term hTerm)]

end Bajutsu.Evidence
