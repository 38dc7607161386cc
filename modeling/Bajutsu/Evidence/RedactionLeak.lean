import Bajutsu.Evidence.RedactionIndependence

/-!
# What a key pattern leaves of a secret

Any configured key has a pattern that stops inside some secret. What stands behind the stop is no longer
the secret the value pass looks for, and it is written out.
-/

namespace Bajutsu.Evidence

open Regex Occurrence

/-! ## A key that cuts a value -/

/-- Whether the text ends in a newline; nothing for the empty text. -/
def endsInBreak (text : List Char) : Option Bool := text.getLast?.map (· == '\n')

theorem endsInBreak_append (front back : List Char) :
    endsInBreak (front ++ back) = (endsInBreak back).or (endsInBreak front) := by
  rw [endsInBreak, List.getLast?_append]
  cases hBack : back.getLast? with
  | none => simp [endsInBreak, hBack]
  | some c => simp [endsInBreak, hBack]

theorem endsInBreak_concat (front : List Char) (c : Char) :
    endsInBreak (front ++ [c]) = some (c == '\n') := by
  rw [endsInBreak_append]
  rfl

theorem endsInBreak_written {out : List Char} (h : out ∈ written) : endsInBreak out = some false := by
  simp only [written, List.mem_cons, List.not_mem_nil, or_false] at h
  rcases h with rfl | rfl <;> decide

theorem endsInBreak_keyCut {rt : Runtime} {keys : List (List Char)} {pattern : Keyed × List Char}
    (hPattern : pattern ∈ rt.patterns keys) (text : List Char) :
    endsInBreak (result (Redactor.keyCut rt pattern text)) = endsInBreak text := by
  have hAll (n : Nat) (st : At Char) :
      endsInBreak (result (pattern.1.pieces rt.reading (fun _ => some pattern.2) n st)) =
        endsInBreak st.rest := by
    induction n generalizing st with
    | zero => rw [Keyed.pieces, result_allKept]
    | succ n ih =>
      rw [Keyed.pieces]
      split
      · rename_i mid fin hFirst
        obtain ⟨group, value, hRest, hMid, hFin⟩ := Keyed.first_parts hFirst
        obtain ⟨taken, c, hTaken, hBreak⟩ := patterns_value hPattern hFin
        have hValue : value = taken ++ [c] := List.append_cancel_right (hMid.symm.trans hTaken)
        have hWritten := endsInBreak_written (patterns_written hPattern)
        simp only [result_append, result_cons, result_nil, Piece.result, List.append_nil]
        rw [endsInBreak_append, ih fin, endsInBreak_append, hWritten, hRest, hValue,
          ← List.append_assoc, endsInBreak_append, ← List.append_assoc group,
          endsInBreak_concat, beq_eq_false_iff_ne.mpr hBreak]
        rfl
      · split
        · rename_i hRest
          rw [hRest]
          rfl
        · rename_i x rest hRest
          rw [hRest, result_cons, endsInBreak_append, ih, ← List.singleton_append, endsInBreak_append]
          rfl
  exact hAll text.length ⟨false, text⟩

theorem endsInBreak_keyPass {rt : Runtime} {keys : List (List Char)}
    {patterns : List (Keyed × List Char)} (hAll : ∀ pattern ∈ patterns, pattern ∈ rt.patterns keys)
    (text : List Char) : endsInBreak (Redactor.keyPass rt patterns text) = endsInBreak text := by
  induction patterns generalizing text with
  | nil => rfl
  | cons pattern patterns ih =>
    obtain ⟨hPattern, hAll⟩ := List.forall_mem_cons.mp hAll
    rw [Redactor.keyPass, List.foldl_cons]
    exact (ih hAll _).trans (endsInBreak_keyCut hPattern text)

/-! ## A secret behind its key -/

/-- The first key as JSON writes it, up to the value. -/
def jsonLead (key : List Char) : List Char := ['"'] ++ key ++ ['"', ':']

theorem run_literal (rt : Runtime) (s rest : List Char) (w : Bool) :
    ∃ w', run rt.reading (rt.literal s) ⟨w, s ++ rest⟩ = [⟨w', rest⟩] := by
  induction s generalizing w with
  | nil => exact ⟨w, rfl⟩
  | cons c s ih =>
    obtain ⟨w', hRest⟩ := ih (rt.reading.word c)
    refine ⟨w', ?_⟩
    have hHead : run rt.reading (.cls (rt.same c)) ⟨w, c :: (s ++ rest)⟩ =
        [⟨rt.reading.word c, s ++ rest⟩] := if_pos (rt.same_self c)
    rw [Runtime.literal, List.foldr_cons, List.cons_append, run, hHead, List.flatMap_cons,
      List.flatMap_nil, List.append_nil]
    exact hRest

theorem run_seq_of {rt : Runtime} {first second : Re} {st mid : At Char}
    (h : run rt.reading first st = [mid]) : run rt.reading (.seq first second) st = run rt.reading second mid := by
  rw [run, h, List.flatMap_cons, List.flatMap_nil, List.append_nil]

theorem run_char (rt : Runtime) (c : Char) (w : Bool) (rest : List Char) :
    run rt.reading (.char c) ⟨w, c :: rest⟩ = [⟨rt.reading.word c, rest⟩] :=
  if_pos (decide_eq_true rfl)

theorem run_spaces_none (rt : Runtime) {c : Char} (hc : PyText.isSpace c = false) (w : Bool)
    (rest : List Char) : run rt.reading spaces ⟨w, c :: rest⟩ = [⟨w, c :: rest⟩] := by
  have hStep : run rt.reading (.cls PyText.isSpace) ⟨w, c :: rest⟩ = [] :=
    if_neg (by rw [show rt.reading.char c = c from rfl, hc]; exact Bool.false_ne_true)
  rw [spaces, run, List.length_cons, rounds, hStep]
  rfl

theorem run_cls_some {rt : Runtime} {holds : Char → Bool} {c : Char} (hc : holds c = true) (w : Bool)
    (rest : List Char) : run rt.reading (.cls holds) ⟨w, c :: rest⟩ = [⟨rt.reading.word c, rest⟩] :=
  if_pos hc

theorem run_cls_none {rt : Runtime} {holds : Char → Bool} {rest : List Char}
    (hRest : ∀ c ∈ rest.head?, holds c = false) (w : Bool) :
    run rt.reading (.cls holds) ⟨w, rest⟩ = [] := by
  cases rest with
  | nil => rfl
  | cons c rest =>
    have hc : holds c = false := hRest c rfl
    exact if_neg (by rw [show rt.reading.char c = c from rfl, hc]; exact Bool.false_ne_true)

/-- The longest run of a class, when what follows it is not in the class. -/
theorem head?_star {rt : Runtime} {holds : Char → Bool} {taken tail : List Char}
    (hTaken : ∀ c ∈ taken, holds c = true) (hTail : ∀ c ∈ tail.head?, holds c = false) (w : Bool) :
    ∃ w', (run rt.reading (.star true (.cls holds)) ⟨w, taken ++ tail⟩).head? = some ⟨w', tail⟩ := by
  have hAll (n : Nat) (hn : (taken ++ tail).length ≤ n) (w : Bool) :
      ∃ w', (rounds (run rt.reading (.cls holds)) true n ⟨w, taken ++ tail⟩).head? = some ⟨w', tail⟩ := by
    induction taken generalizing n w with
    | nil =>
      refine ⟨w, ?_⟩
      cases n with
      | zero => rfl
      | succ n =>
        rw [rounds, List.nil_append, run_cls_none hTail]
        rfl
    | cons x taken ih =>
      obtain ⟨hx, hTaken⟩ := List.forall_mem_cons.mp hTaken
      cases n with
      | zero => simp at hn
      | succ n =>
        obtain ⟨w', hw'⟩ := ih hTaken n (by simpa using hn) (rt.reading.word x)
        refine ⟨w', ?_⟩
        have hLess : (taken ++ tail).length < (x :: (taken ++ tail)).length := Nat.lt_succ_self _
        rw [rounds, List.cons_append, run_cls_some hx, List.flatMap_cons, List.flatMap_nil,
          List.append_nil, if_pos hLess, if_pos rfl, List.head?_append, hw']
        rfl
  exact hAll _ (Nat.le_refl _) w

theorem head?_someOf {rt : Runtime} {holds : Char → Bool} {taken tail : List Char} (hNe : taken ≠ [])
    (hTaken : ∀ c ∈ taken, holds c = true) (hTail : ∀ c ∈ tail.head?, holds c = false) (w : Bool) :
    ∃ w', (run rt.reading (someOf holds) ⟨w, taken ++ tail⟩).head? = some ⟨w', tail⟩ := by
  obtain ⟨x, taken, rfl⟩ := List.exists_cons_of_ne_nil hNe
  obtain ⟨hx, hTaken⟩ := List.forall_mem_cons.mp hTaken
  obtain ⟨w', hw'⟩ := head?_star hTaken hTail (rt.reading.word x)
  refine ⟨w', ?_⟩
  have hOne : run rt.reading (.exactly 1 (.cls holds)) ⟨w, x :: (taken ++ tail)⟩ =
      [⟨rt.reading.word x, taken ++ tail⟩] := by
    rw [Re.exactly, run, run_cls_some hx]
    rfl
  rw [someOf, Re.atLeast, run, List.cons_append, hOne, List.flatMap_cons, List.flatMap_nil,
    List.append_nil]
  exact hw'

/-- The JSON pattern takes a bare value behind its key up to the first stop. -/
theorem jsonPattern_first (rt : Runtime) (key : List Char) {taken tail : List Char} (hNe : taken ≠ [])
    (hTaken : ∀ c ∈ taken, c = 'a') (hTail : ∀ c ∈ tail.head?, PyText.isSpace c = true) :
    ∃ w mid, (rt.jsonPattern key).first rt.reading ⟨false, jsonLead key ++ (taken ++ tail)⟩ =
      some (mid, ⟨w, tail⟩) ∧ mid.rest = taken ++ tail := by
  obtain ⟨x, more, rfl⟩ := List.exists_cons_of_ne_nil hNe
  obtain rfl : x = 'a' := hTaken x List.mem_cons_self
  obtain ⟨w₁, hKey⟩ := run_literal rt key (['"', ':'] ++ (('a' :: more) ++ tail)) (rt.reading.word '"')
  have hText : jsonLead key ++ (('a' :: more) ++ tail) =
      '"' :: (key ++ (['"', ':'] ++ (('a' :: more) ++ tail))) := by simp [jsonLead]
  have hGroup : run rt.reading (rt.jsonPattern key).group ⟨false, jsonLead key ++ (('a' :: more) ++ tail)⟩ =
      [⟨rt.reading.word ':', ('a' :: more) ++ tail⟩] := by
    have hColon : PyText.isSpace ':' = false := by decide
    have hLetter : PyText.isSpace 'a' = false := by decide
    rw [hText, Runtime.jsonPattern, run_seq_of (run_char rt '"' false _), run_seq_of hKey,
      List.cons_append, run_seq_of (run_char rt '"' w₁ _), List.cons_append,
      run_seq_of (run_spaces_none rt hColon _ _), run_seq_of (run_char rt ':' _ _)]
    exact run_spaces_none rt hLetter _ _
  have hString (w : Bool) : run rt.reading jsonString ⟨w, ('a' :: more) ++ tail⟩ = [] := by
    have hQuote : run rt.reading (.char '"') ⟨w, 'a' :: (more ++ tail)⟩ = [] :=
      run_cls_none (by simp) w
    rw [jsonString, run, List.cons_append, hQuote]
    rfl
  obtain ⟨w₂, hValue⟩ := @head?_someOf rt (fun c => !(PyText.isSpace c || c ∈ [',', '}', ']']))
    ('a' :: more) tail (List.cons_ne_nil _ _)
    (fun c hc => by rw [hTaken c hc]; decide) (fun c hc => by simp [hTail c hc]) (rt.reading.word ':')
  refine ⟨w₂, ⟨rt.reading.word ':', ('a' :: more) ++ tail⟩, ?_, rfl⟩
  have hBoth : (run rt.reading (rt.jsonPattern key).value
      ⟨rt.reading.word ':', ('a' :: more) ++ tail⟩).head? = some ⟨w₂, tail⟩ := by
    rw [Runtime.jsonPattern, run, hString, List.nil_append]
    exact hValue
  rw [Keyed.first, hGroup, List.flatMap_cons, List.flatMap_nil, List.append_nil, List.head?_map, hBoth]
  rfl

theorem result_pieces_breaks {rt : Runtime} {keys : List (List Char)} {pattern : Keyed × List Char}
    (hPattern : pattern ∈ rt.patterns keys) (n : Nat) {st : At Char} (hRest : ∀ c ∈ st.rest, c = '\n') :
    result (pattern.1.pieces rt.reading (fun _ => some pattern.2) n st) = st.rest := by
  induction n generalizing st with
  | zero => exact result_allKept st.rest
  | succ n ih =>
    rw [Keyed.pieces]
    split
    · rename_i mid fin hFirst
      obtain ⟨group, value, hText, hMid, hFin⟩ := Keyed.first_parts hFirst
      obtain ⟨taken, c, hTaken, hBreak⟩ := patterns_value hPattern hFin
      refine absurd (hRest c ?_) hBreak
      rw [hText, ← hMid, hTaken]
      simp
    · split
      · rename_i hNil
        exact hNil.symm
      · rename_i x rest hCons
        rw [hCons] at hRest ⊢
        have hTail := @ih ⟨rt.reading.word x, rest⟩ fun c hc => hRest c (List.mem_cons_of_mem x hc)
        exact congrArg (x :: ·) hTail

/-- What the first pattern of a key makes of a value that a newline ends. -/
theorem jsonPattern_cut (rt : Runtime) (key : List Char) {taken tail : List Char} (hNe : taken ≠ [])
    (hTaken : ∀ c ∈ taken, c = 'a') (hTail : ∀ c ∈ tail, c = '\n') :
    result (Redactor.keyCut rt (rt.jsonPattern key, ['"'] ++ placeholder.toList ++ ['"'])
        (jsonLead key ++ (taken ++ tail))) =
      jsonLead key ++ (['"'] ++ placeholder.toList ++ ['"']) ++ tail := by
  have hSpace : ∀ c ∈ tail.head?, PyText.isSpace c = true := by
    intro c hc
    rw [hTail c (List.mem_of_mem_head? hc)]
    decide
  obtain ⟨w, mid, hFirst, hMid⟩ := jsonPattern_first rt key hNe hTaken hSpace
  have hPattern : (rt.jsonPattern key, ['"'] ++ placeholder.toList ++ ['"']) ∈ rt.patterns [key] :=
    List.mem_cons_self
  obtain ⟨n, hn⟩ : ∃ n, (jsonLead key ++ (taken ++ tail)).length = n + 1 :=
    ⟨_, (Nat.succ_pred_eq_of_pos (by simp [jsonLead])).symm⟩
  have hRest := @result_pieces_breaks rt [key] _ hPattern n ⟨w, tail⟩ hTail
  rw [Redactor.keyCut, Keyed.cut, hn, Keyed.pieces, hFirst]
  simp only [hMid, upTo_append, result_append, result_allKept, result_cons, result_nil, Piece.result,
    List.append_nil] at hRest ⊢
  rw [hRest]

/-! ## The secret -/

/-- A row of letters, and what follows them. -/
def letters (n : Nat) (tail : List Char) : List Char := List.replicate n 'a' ++ tail

theorem flatMap_letters {f : Char → List Char} (hf : f 'a' = ['a']) (n : Nat) (tail : List Char) :
    (letters n tail).flatMap f = letters n (tail.flatMap f) := by
  rw [letters, List.flatMap_append, List.flatMap_replicate, hf]
  simp [letters]

theorem forms_letters {n : Nat} {tail term : List Char} (hTail : tail = [] ∨ tail = ['\n'])
    (h : term ∈ forms (letters n tail)) :
    term = letters n tail ∨
      ∃ coded, term = letters n coded ∧ tail.length < coded.length ∧
        ∀ c ∈ coded, c ∈ ['%', '0', 'A', '\\', 'n'] := by
  rcases List.mem_cons.mp h with rfl | h
  · exact .inl rfl
  obtain ⟨hMem, hNe⟩ := List.mem_filter.mp h
  have hSpace : ' ' ∉ letters n tail := by
    rcases hTail with rfl | rfl <;> simp [letters]
  have hQuote (safe : List Char) (hSafe : '\n' ∉ safe) : quote safe (letters n tail) =
      letters n (tail.flatMap fun _ => ['%', '0', 'A']) := by
    have hLetter : quoteChar safe 'a' = ['a'] := by simp [quoteChar, alwaysSafe, Char.isAlphanum]
    rw [quote, flatMap_letters hLetter]
    rcases hTail with rfl | rfl
    · rfl
    · have hBreak : quoteChar safe '\n' = ['%', '0', 'A'] := by
        rw [quoteChar, if_neg (by simpa [alwaysSafe] using hSafe)]
        decide
      simp [hBreak]
  have hCoded : term = letters n tail ∨ term = letters n (tail.flatMap fun _ => ['%', '0', 'A']) ∨
      term = letters n (tail.flatMap fun _ => ['\\', 'n']) := by
    simp only [List.mem_cons, List.not_mem_nil, or_false] at hMem
    rcases hMem with rfl | rfl | rfl | rfl | rfl
    · exact .inr (.inl (hQuote _ (by decide)))
    · exact .inr (.inl (hQuote _ (by decide)))
    · rw [quotePlus, if_neg hSpace]
      exact .inr (.inl (hQuote _ (by decide)))
    · left
      rw [htmlEscape, flatMap_letters (by decide)]
      rcases hTail with rfl | rfl <;> rfl
    · right
      right
      rw [jsonBody, flatMap_letters (by decide)]
      rcases hTail with rfl | rfl <;> rfl
  rcases hTail with rfl | rfl
  · exact .inl (hCoded.elim id fun h => h.elim id id)
  · rcases hCoded with rfl | rfl | rfl
    · exact .inl rfl
    · exact .inr ⟨_, rfl, by decide, by simp⟩
    · exact .inr ⟨_, rfl, by decide, by simp⟩

/-- Letters behind a shorter text that ends in another character start there or later. -/
theorem letters_behind {front before after coded tail : List Char} {x : Char} {n : Nat} (hx : x ≠ 'a')
    (hn : (front ++ [x]).length ≤ n)
    (h : front ++ [x] ++ letters n tail = before ++ letters n coded ++ after) :
    ∃ gap, before = front ++ [x] ++ gap ∧ letters n tail = gap ++ letters n coded ++ after := by
  rw [List.append_assoc before] at h
  rcases List.append_eq_append_iff.mp h with ⟨gap, hGap, hRest⟩ | ⟨gap, hGap, hRest⟩
  · exact ⟨gap, hGap, by rw [hRest, List.append_assoc]⟩
  · rcases List.eq_nil_or_concat gap with rfl | ⟨more, y, rfl⟩
    · exact ⟨[], by rw [hGap]; simp, by simpa using hRest.symm⟩
    · exfalso
      rw [List.concat_eq_append] at hGap hRest
      rw [← List.append_assoc] at hGap
      obtain ⟨-, hLast⟩ := List.append_inj' hGap rfl
      obtain rfl : x = y := by simpa using hLast
      rw [letters, List.append_assoc] at hRest
      have hLength : (more ++ [x]).length ≤ (List.replicate n 'a').length := by
        have hTotal := congrArg List.length hGap
        simp only [List.length_append, List.length_singleton, List.length_replicate] at hTotal hn ⊢
        omega
      have hPrefix : more ++ [x] <+: List.replicate n 'a' :=
        List.prefix_of_prefix_length_le ⟨_, rfl⟩ ⟨_, hRest⟩ hLength
      exact hx (List.eq_of_mem_replicate (hPrefix.subset (by simp)))

theorem Clear.of_mem {α : Type} {term out : List α} {x first last : α} (hx : x ∈ term) (hxOut : x ∉ out)
    (hFirst : out.head? = some first) (hFirstTerm : first ∉ term) (hLast : out.getLast? = some last)
    (hLastTerm : last ∉ term) : Clear term out where
  notIn h := hxOut (h.subset hx)
  notOver h := hFirstTerm (h.subset (List.mem_of_mem_head? hFirst))
  notInto part hNe hSuffix hPrefix := by
    obtain ⟨c, part, rfl⟩ := List.exists_cons_of_ne_nil hNe
    obtain ⟨rest, rfl⟩ := hPrefix
    cases hFirst
    exact hFirstTerm (hSuffix.subset List.mem_cons_self)
  notOutOf part hNe hSuffix hPrefix := by
    obtain ⟨front, rfl⟩ := hSuffix
    rw [List.getLast?_append_of_ne_nil front hNe] at hLast
    exact hLastTerm (hPrefix.subset (List.mem_of_mem_getLast? hLast))

theorem letters_clear {n : Nat} {tail term out : List Char} (hn : 0 < n)
    (hTail : tail = [] ∨ tail = ['\n']) (h : term ∈ forms (letters n tail)) (hOut : out ∈ written) :
    Clear term out := by
  have hLetters (coded : List Char) : 'a' ∈ letters n coded := by
    simp [letters, Nat.pos_iff_ne_zero.mp hn]
  have hMem (c : Char) (hc : c ∈ term) : c ∈ ['a', '\n', '%', '0', 'A', '\\', 'n'] := by
    rcases forms_letters hTail h with rfl | ⟨coded, rfl, -, hCoded⟩
    · rcases List.mem_append.mp hc with hc | hc
      · simp [List.eq_of_mem_replicate hc]
      · rcases hTail with rfl | rfl
        · cases hc
        · simp [List.mem_singleton.mp hc]
    · rcases List.mem_append.mp hc with hc | hc
      · simp [List.eq_of_mem_replicate hc]
      · have hIn := hCoded c hc
        simp only [List.mem_cons, List.not_mem_nil, or_false] at hIn ⊢
        tauto
  have hLetter : 'a' ∈ term := by
    rcases forms_letters hTail h with rfl | ⟨coded, rfl, -, -⟩
    · exact hLetters tail
    · exact hLetters coded
  simp only [written, List.mem_cons, List.not_mem_nil, or_false] at hOut
  rcases hOut with rfl | rfl
  · exact Clear.of_mem hLetter (by decide) rfl (fun hc => absurd (hMem _ hc) (by decide)) rfl
      (fun hc => absurd (hMem _ hc) (by decide))
  · exact Clear.of_mem hLetter (by decide) rfl (fun hc => absurd (hMem _ hc) (by decide)) rfl
      (fun hc => absurd (hMem _ hc) (by decide))

theorem replaced_length_le {α : Type} {pieces : List (Piece α)} {taken out : List α}
    (h : .replaced taken out ∈ pieces) : taken.length ≤ (source pieces).length := by
  obtain ⟨earlier, later, rfl⟩ := List.append_of_mem h
  rw [source_append, source_cons, Piece.source]
  simp only [List.length_append]
  omega

section Leak

variable {rt : Runtime} {key : List Char} {keys : List (List Char)} {n : Nat} {tail : List Char}

theorem jsonLead_eq (key : List Char) : jsonLead key = (['"'] ++ key ++ ['"']) ++ [':'] := by
  simp [jsonLead]

theorem letters_placed (hn : (jsonLead key).length ≤ n) (hTail : tail = [] ∨ tail = ['\n']) :
    Placed (letters n tail) (jsonLead key) [] where
  nonempty := by
    have hPos : 0 < n := Nat.lt_of_lt_of_le (by simp [jsonLead]) hn
    simp [letters, Nat.pos_iff_ne_zero.mp hPos]
  onlyAt before' after' h := by
    rw [jsonLead_eq] at h hn ⊢
    rw [List.append_nil] at h
    obtain ⟨gap, hGap, hRest⟩ := letters_behind (by decide) hn h
    have hLength := congrArg List.length hRest
    simp only [List.length_append] at hLength
    have hNil : gap = [] := List.length_eq_zero_iff.mp (by omega)
    rw [hGap, hNil, List.append_nil]
  clear term hTerm :=
    letters_clear (Nat.lt_of_lt_of_le (by simp [jsonLead]) hn) hTail hTerm placeholder_mem_written

/-- A value longer than the text the key patterns leave is carried by no token of it. -/
theorem letters_plain (hn : (jsonLead key).length ≤ n) (hTail : tail = [] ∨ tail = ['\n'])
    (hShort : (Redactor.keyPass rt (rt.patterns keys) (jsonLead key ++ letters n tail)).length < n) :
    Plain rt keys (letters n tail) (jsonLead key) [] where
  quoted term hTerm :=
    letters_clear (Nat.lt_of_lt_of_le (by simp [jsonLead]) hn) hTail hTerm (by simp [written])
  encodings term hTerm := by
    rintro ⟨before', after', h⟩
    have hNe : term ≠ letters n tail := by simpa using (List.mem_filter.mp hTerm).2
    rcases forms_letters hTail (List.mem_cons_of_mem _ hTerm) with hSame | ⟨coded, rfl, hLonger, -⟩
    · exact hNe hSame
    · rw [jsonLead_eq] at h hn
      rw [List.append_nil] at h
      obtain ⟨gap, -, hRest⟩ := letters_behind (by decide) hn h.symm
      have hLength := congrArg List.length hRest
      simp only [letters, List.length_append, List.length_replicate] at hLength
      omega
  tokens token out hMem := by
    have hToken := replaced_length_le hMem
    rw [Redactor.basicCut, Keyed.source_cut, List.append_nil] at hToken
    have hOut := Keyed.replaced_mem hMem
    rw [Redactor.maskToken] at hOut
    split at hOut
    · rename_i decoded hDecoded
      split at hOut
      · rename_i hCarries
        have hInfix : letters n tail <:+: decoded := by simpa using hCarries
        have hLength := hInfix.length_le
        have hShorter := rt.decodeToken_length token decoded hDecoded
        simp only [letters, List.length_append, List.length_replicate] at hLength
        omega
      · cases hOut
    · cases hOut

end Leak

/-- With a key configured, some two secrets in one place are not redacted alike. -/
theorem redactText_leaks (rt : Runtime) (key : List Char) (keys : List (List Char)) :
    ∃ v w before after, Placed v before after ∧ Placed w before after ∧
      Plain rt (key :: keys) v before after ∧ Plain rt (key :: keys) w before after ∧
      (Redactor.make (key :: keys) [v]).redactText rt (before ++ v ++ after) ≠
        (Redactor.make (key :: keys) [w]).redactText rt (before ++ w ++ after) := by
  obtain ⟨more, hMore⟩ : ∃ more, rt.patterns (key :: keys) =
      (rt.jsonPattern key, ['"'] ++ placeholder.toList ++ ['"']) :: more :=
    ⟨_, List.flatMap_cons⟩
  have hAll : ∀ pattern ∈ more, pattern ∈ rt.patterns (key :: keys) := fun pattern h =>
    hMore ▸ List.mem_cons_of_mem _ h
  let cut (tail : List Char) : List Char := Redactor.keyPass rt more
    (jsonLead key ++ (['"'] ++ placeholder.toList ++ ['"']) ++ tail)
  let n := (jsonLead key).length + (cut []).length + (cut ['\n']).length + 1
  have hPass (tail : List Char) (hTail : tail = [] ∨ tail = ['\n']) :
      Redactor.keyPass rt (rt.patterns (key :: keys)) (jsonLead key ++ letters n tail) = cut tail := by
    have hBreaks : ∀ c ∈ tail, c = '\n' := by
      rcases hTail with rfl | rfl <;> simp
    have hFirst := @jsonPattern_cut rt key (List.replicate n 'a') tail (by simp [n])
      (fun c hc => List.eq_of_mem_replicate hc) hBreaks
    rw [hMore, Redactor.keyPass, List.foldl_cons, letters, hFirst]
    rfl
  have hShort (tail : List Char) (hTail : tail = [] ∨ tail = ['\n']) : (cut tail).length < n := by
    rcases hTail with rfl | rfl <;> simp only [n] <;> omega
  have hLead : (jsonLead key).length ≤ n := by
    simp only [n]
    omega
  have hPlain (tail : List Char) (hTail : tail = [] ∨ tail = ['\n']) :
      Plain rt (key :: keys) (letters n tail) (jsonLead key) [] :=
    letters_plain hLead hTail (by rw [hPass tail hTail]; exact hShort tail hTail)
  -- Nothing of either secret is left, so the value pass finds nothing.
  have hText (tail : List Char) (hTail : tail = [] ∨ tail = ['\n']) :
      (Redactor.make (key :: keys) [letters n tail]).redactText rt (jsonLead key ++ letters n tail ++ []) =
        cut tail := by
    rw [redactText_make rt _ (letters_placed hLead hTail).nonempty (hPlain tail hTail).tokens,
      List.append_nil, hPass tail hTail]
    apply replaceTerms_absent
    intro term hTerm hInfix
    have hForm := length_le_of_mem_forms ((mem_searchTerms rt _ term).mp hTerm)
    have hLength := hInfix.length_le
    have hLess := hShort tail hTail
    simp only [letters, List.length_append, List.length_replicate] at hForm
    omega
  refine ⟨letters n ['\n'], letters n [], jsonLead key, [], letters_placed hLead (.inr rfl),
    letters_placed hLead (.inl rfl), hPlain _ (.inr rfl), hPlain _ (.inl rfl), ?_⟩
  rw [hText _ (.inr rfl), hText _ (.inl rfl)]
  intro hEq
  have hBreak := congrArg endsInBreak hEq
  simp only [cut] at hBreak
  have hQuoted : endsInBreak (['"'] ++ placeholder.toList ++ ['"']) = some false := by decide
  have hNewline : endsInBreak ['\n'] = some true := by decide
  rw [endsInBreak_keyPass hAll, endsInBreak_keyPass hAll, endsInBreak_append, hNewline,
    List.append_nil, endsInBreak_append, hQuoted] at hBreak
  cases hBreak

/-- A redacted text does not depend on a secret that no key pattern cuts; every configured key has a
pattern that cuts some secret. -/
theorem redactText_independent (rt : Runtime) (keys : List (List Char)) :
    (∀ v w before after, Placed v before after → Placed w before after →
      Plain rt keys v before after → Plain rt keys w before after →
      Uncut rt v w (rt.patterns keys) before after →
      (Redactor.make keys [v]).redactText rt (before ++ v ++ after) =
        (Redactor.make keys [w]).redactText rt (before ++ w ++ after)) ∧
    ((∀ v w before after, Placed v before after → Placed w before after →
      Plain rt keys v before after → Plain rt keys w before after →
      (Redactor.make keys [v]).redactText rt (before ++ v ++ after) =
        (Redactor.make keys [w]).redactText rt (before ++ w ++ after)) ↔ keys = []) := by
  refine ⟨fun v w before after => redactText_uncut rt keys, ?_⟩
  constructor
  · intro hSame
    cases keys with
    | nil => rfl
    | cons key keys =>
      obtain ⟨v, w, before, after, hv, hw, hvPlain, hwPlain, hDiffer⟩ := redactText_leaks rt key keys
      exact absurd (hSame v w before after hv hw hvPlain hwPlain) hDiffer
  · rintro rfl v w before after hv hw hvPlain hwPlain
    exact redactText_uncut rt [] hv hw hvPlain hwPlain (.done before after)

/-! ## Two secrets behind a query key -/

def asciiRuntime : Runtime where
  word := asciiWords
  same c d := c.toLower == d.toLower
  same_self _ := beq_self_eq_true _
  setOrder terms := terms
  setOrder_perm _ := .refl _
  decodeToken _ := none
  decodeToken_length _ _ h := nomatch h

/-- Where in the text the term stands. -/
def places (term text : List Char) : List Nat :=
  (List.range (text.length + 1)).filter fun i => term.isPrefixOf (text.drop i)

theorem onlyAt_of_places {term before after : List Char}
    (h : places term (before ++ term ++ after) = [before.length]) : OnlyAt term before after := by
  intro before' after' hText
  have hDrop : (before ++ term ++ after).drop before'.length = term ++ after' := by
    rw [hText, List.append_assoc, List.drop_left]
  have hLength : before'.length = before.length := by
    have hMem : before'.length ∈ places term (before ++ term ++ after) := by
      rw [places, List.mem_filter, List.mem_range, hDrop]
      constructor
      · rw [hText]
        simp only [List.length_append]
        omega
      · simp
    rw [h] at hMem
    exact List.mem_singleton.mp hMem
  rw [List.append_assoc, List.append_assoc] at hText
  exact (List.append_inj hText hLength.symm).1.symm

/-- A term with a letter the placeholder lacks, and without the characters at its ends. -/
def clearLetters (term : List Char) : Bool :=
  (term.contains 'a' || term.contains 'x') && !term.contains '[' && !term.contains ']' &&
    !term.contains '"'

theorem clear_of_letters {term out : List Char} (h : clearLetters term = true) (hOut : out ∈ written) :
    Clear term out := by
  simp only [clearLetters, Bool.and_eq_true, Bool.or_eq_true, Bool.not_eq_true', List.contains_eq_mem,
    decide_eq_true_eq, decide_eq_false_iff_not] at h
  obtain ⟨⟨⟨hLetter, hOpen⟩, hClose⟩, hQuote⟩ := h
  simp only [written, List.mem_cons, List.not_mem_nil, or_false] at hOut
  rcases hLetter with hLetter | hLetter <;> rcases hOut with rfl | rfl
  · exact Clear.of_mem hLetter (by decide) rfl hOpen rfl hClose
  · exact Clear.of_mem hLetter (by decide) rfl hQuote rfl hQuote
  · exact Clear.of_mem hLetter (by decide) rfl hOpen rfl hClose
  · exact Clear.of_mem hLetter (by decide) rfl hQuote rfl hQuote

theorem placed_of_check {value before after : List Char} (hValue : value ≠ [])
    (hPlaces : places value (before ++ value ++ after) = [before.length])
    (hLetters : (forms value).all clearLetters = true) : Placed value before after where
  nonempty := hValue
  onlyAt := onlyAt_of_places hPlaces
  clear term hTerm := clear_of_letters (List.all_eq_true.mp hLetters term hTerm) placeholder_mem_written

theorem plain_of_check {keys : List (List Char)} {value before after : List Char}
    (hLetters : (forms value).all clearLetters = true) (hNone : encodedVariants value = []) :
    Plain asciiRuntime keys value before after where
  quoted term hTerm := clear_of_letters (List.all_eq_true.mp hLetters term hTerm) (by simp [written])
  encodings term hTerm := by
    rw [hNone] at hTerm
    cases hTerm
  tokens token out hMem := nomatch Keyed.replaced_mem hMem

theorem redactText_independent_query :
    (Redactor.make ["token".toList] ["abc".toList]).redactText asciiRuntime "token=abc".toList =
      (Redactor.make ["token".toList] ["xy".toList]).redactText asciiRuntime "token=xy".toList := by
  apply (redactText_independent asciiRuntime ["token".toList]).1 "abc".toList "xy".toList "token=".toList []
  · exact placed_of_check (by decide) (by decide +kernel) (by decide +kernel)
  · exact placed_of_check (by decide) (by decide +kernel) (by decide +kernel)
  · exact plain_of_check (by decide +kernel) (by decide +kernel)
  · exact plain_of_check (by decide +kernel) (by decide +kernel)
  · refine @Uncut.left _ _ _ _ _ (allKept "token=".toList) [] _ _ rfl (by decide +kernel)
      (by decide +kernel) ?_
    exact @Uncut.taken _ _ _ _ _ (allKept "token=".toList) [] [] [] placeholder.toList _ _ rfl
      (by decide +kernel) (by decide +kernel)

/-- The query pattern takes `abc` of `abc def`, and ` def` is written out. -/
theorem query_secret_cut :
    ¬∀ (rt : Runtime) (keys : List (List Char)) (v w before after : List Char),
      Placed v before after → Placed w before after →
      (Redactor.make keys [v]).redactText rt (before ++ v ++ after) =
        (Redactor.make keys [w]).redactText rt (before ++ w ++ after) := by
  intro hAll
  have hSame := hAll asciiRuntime ["token".toList] "abc def".toList "abc".toList "token=".toList []
    (placed_of_check (by decide) (by decide +kernel) (by decide +kernel))
    (placed_of_check (by decide) (by decide +kernel) (by decide +kernel))
  exact absurd hSame (by decide +kernel)

end Bajutsu.Evidence
