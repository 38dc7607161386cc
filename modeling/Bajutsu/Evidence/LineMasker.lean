import Bajutsu.Evidence.CredentialShapes

/-!
# What the line masker hides

The whole-text pass replaces each private key block up to its END marker; the line masker carries one
counter instead. Line by line both are followed from the same position: outside a block the texts to
come are masked alike, inside one the whole-text pass goes on behind the END marker that comes.
-/

namespace Bajutsu.Evidence

open Regex

section LineMasker

variable {α : Type} {S : Script α}

/-! ## The shapes at a line break -/

/-- The shapes masked before private key blocks. -/
def earlierShapes : List (String × Re) := credentialShapes.take 4

def maskEarlier (S : Script α) (text : List α) : List α := (maskShapes S earlierShapes text).1

def maskBlocks (S : Script α) (text : List α) : List α :=
  sub S.toReading pemPrivateKey (S.write placeholder) text

theorem maskCredentialShapes_eq (text : List α) :
    (maskCredentialShapes S text).1 = maskBlocks S (maskEarlier S text) := rfl

theorem maskEarlier_eq (text : List α) :
    maskEarlier S text =
      [anthropicApiKey, awsAccessKeyId, githubToken, jsonWebToken].foldl
        (fun text shape => sub S.toReading shape (S.write placeholder) text) text := rfl

/-- The characters at which every earlier shape stops. -/
def stops (c : Char) : Bool :=
  [anthropicApiKey, awsAccessKeyId, githubToken, jsonWebToken].all (fun shape => !shape.accepts c) &&
    c.toNat < 128 && !(c.isAlphanum || c == '_')

theorem barrier_of_stops {shape : Re}
    (hShape : shape ∈ [anthropicApiKey, awsAccessKeyId, githubToken, jsonWebToken]) {b : α}
    (hStops : stops (S.char b) = true) : Barrier S.toReading shape b := by
  simp only [stops, Bool.and_eq_true, decide_eq_true_eq, Bool.not_eq_true', List.all_eq_true]
    at hStops
  obtain ⟨⟨hAll, hAscii⟩, hWord⟩ := hStops
  exact ⟨hAll shape hShape, (S.ascii _ hAscii).trans hWord⟩

theorem maskEarlier_append {b : α} (hStops : stops (S.char b) = true) (text after : List α) :
    maskEarlier S (text ++ b :: after) = maskEarlier S text ++ b :: maskEarlier S after := by
  rw [maskEarlier_eq, maskEarlier_eq, maskEarlier_eq]
  have hAll := fun shape hShape => @barrier_of_stops _ S shape hShape b hStops
  generalize [anthropicApiKey, awsAccessKeyId, githubToken, jsonWebToken] = shapes at hAll
  induction shapes generalizing text after with
  | nil => rfl
  | cons shape shapes ih =>
    obtain ⟨hShape, hAll⟩ := List.forall_mem_cons.mp hAll
    rw [List.foldl_cons, sub_append hShape, ih _ _ hAll]
    rfl

theorem maskEarlier_nil : maskEarlier S [] = [] := rfl

theorem stops_newline : stops '\n' = true := by decide

theorem endsWithNewline_iff {text : List α} :
    endsWithNewline S text = true ↔ ∃ body b, text = body ++ [b] ∧ S.char b = '\n' := by
  rw [endsWithNewline]
  constructor
  · intro h
    split at h
    · rename_i b hLast
      obtain ⟨body, rfl⟩ := List.getLast?_eq_some_iff.mp hLast
      exact ⟨body, b, rfl, beq_iff_eq.mp h⟩
    · cases h
  · rintro ⟨body, b, rfl, hb⟩
    simp [hb]

/-- A part that ends at a line break, or at the end of the text. -/
def Breaks (S : Script α) (part more : List α) : Prop := more = [] ∨ endsWithNewline S part = true

theorem maskEarlier_breaks {part more : List α} (h : Breaks S part more) :
    maskEarlier S (part ++ more) = maskEarlier S part ++ maskEarlier S more := by
  rcases h with rfl | h
  · rw [maskEarlier_nil, List.append_nil, List.append_nil]
  · obtain ⟨body, b, rfl, hb⟩ := endsWithNewline_iff.mp h
    have hStops : stops (S.char b) = true := hb ▸ stops_newline
    rw [List.append_assoc, List.singleton_append, maskEarlier_append hStops,
      maskEarlier_append hStops, maskEarlier_nil, List.append_assoc, List.singleton_append]

theorem endsWithNewline_maskEarlier {text : List α} (h : endsWithNewline S text = true) :
    endsWithNewline S (maskEarlier S text) = true := by
  obtain ⟨body, b, rfl, hb⟩ := endsWithNewline_iff.mp h
  rw [maskEarlier_append (hb ▸ stops_newline), maskEarlier_nil]
  exact endsWithNewline_iff.mpr ⟨_, b, rfl, hb⟩

/-! ## Markers -/

/-- The two marker patterns. -/
def IsMarker (r : Re) : Prop := r = pemBegin ∨ r = pemEnd

theorem IsMarker.free {r : Re} (h : IsMarker r) : r.free = true := by
  rcases h with rfl | rfl <;> rfl

theorem IsMarker.barrier {r : Re} (h : IsMarker r) {b : α} (hb : S.char b = '\n') :
    Barrier S.toReading r b := by
  refine ⟨?_, ?_⟩
  · rw [hb]
    rcases h with rfl | rfl <;> decide
  · rw [hb]
    exact S.ascii '\n' (by decide)

/-- A marker is a literal, then capitals and spaces, then a literal that ends in ` KEY-----`. -/
theorem IsMarker.taken {r : Re} (h : IsMarker r) {st fin : At α} (hFin : fin ∈ run S.toReading r st) :
    ∃ first inner space last, st.rest = (first :: inner ++ space :: last) ++ fin.rest ∧
      S.char first = '-' ∧ (∀ x ∈ first :: inner, S.char x ≠ '[') ∧ S.char space = ' ' ∧
      last.map S.char = "KEY-----".toList := by
  obtain ⟨word, hWord, rfl⟩ : ∃ word ∈ ["BEGIN", "END"], r = pemMarker word := by
    rcases h with rfl | rfl
    · exact ⟨"BEGIN", by simp, rfl⟩
    · exact ⟨"END", by simp, rfl⟩
  obtain ⟨mid, hMid, hFin⟩ := List.mem_flatMap.mp hFin
  obtain ⟨mid', hMid', hFin⟩ := List.mem_flatMap.mp hFin
  obtain ⟨head, hHead, hHeadText⟩ := run_text hMid
  obtain ⟨capitals, hCapitals, hUpper⟩ := run_taken S.toReading hMid'
  obtain ⟨tail, hTail, hTailText⟩ := run_text hFin
  have hHeadSplit : ("-----" ++ word ++ " ").toList = '-' :: ("----" ++ word ++ " ").toList ∧
      '[' ∉ ("-----" ++ word ++ " ").toList := by
    simp only [List.mem_cons, List.not_mem_nil, or_false] at hWord
    rcases hWord with rfl | rfl <;> decide
  have hTailSplit : "PRIVATE KEY-----".toList = "PRIVATE".toList ++ ' ' :: "KEY-----".toList := by
    decide
  rw [hTailSplit] at hTailText
  obtain ⟨priv, last, rfl, hPriv, hLast⟩ := List.map_eq_append_iff.mp hTailText
  obtain ⟨space, last, rfl, hSpace, hLast⟩ := List.map_eq_cons_iff.mp hLast
  obtain ⟨first, inner, rfl, hFirst, -⟩ := List.map_eq_cons_iff.mp (hHeadText.trans hHeadSplit.1)
  refine ⟨first, inner ++ capitals ++ priv, space, last, ?_, hFirst, fun x hx hBracket => ?_, hSpace,
    hLast⟩
  · rw [hHead, hCapitals, hTail]
    simp
  · have hParts : x ∈ first :: inner ∨ x ∈ capitals ∨ x ∈ priv := by
      simp only [List.mem_cons, List.mem_append] at hx ⊢
      tauto
    rcases hParts with hx | hx | hx
    · exact hHeadSplit.2 (hHeadText ▸ hBracket ▸ List.mem_map_of_mem hx)
    · have hCapital : upperSpace (S.char x) = true := hUpper x hx
      rw [hBracket] at hCapital
      exact absurd hCapital (by decide)
    · have hLetter : '[' ∈ "PRIVATE".toList := hPriv ▸ hBracket ▸ List.mem_map_of_mem hx
      exact absurd hLetter (by decide)

theorem IsMarker.takes {r : Re} (h : IsMarker r) : Takes S.toReading r := by
  intro st fin hFirst
  obtain ⟨first, inner, space, last, hTaken, -⟩ := h.taken (List.mem_of_mem_head? hFirst)
  rw [hTaken]
  simp only [List.length_append, List.length_cons]
  omega

theorem mem_placeholder {x : α} (h : x ∈ S.write placeholder) : S.char x ∈ placeholder.toList := by
  obtain ⟨c, hc, rfl⟩ := List.mem_map.mp h
  rwa [S.char_fresh]

/-- Masking the earlier shapes makes no marker: one that is found afterwards was there before. -/
theorem IsMarker.isSome_of_maskEarlier {r : Re} (h : IsMarker r) {w : Bool} {text : List α}
    (hFound : (search S.toReading r w (maskEarlier S text)).isSome) (w' : Bool) :
    (search S.toReading r w' text).isSome := by
  obtain ⟨found, hFound⟩ := Option.isSome_iff_exists.mp hFound
  have hText := search_eq hFound
  obtain ⟨w'', fin, hFin, hRest⟩ := run_of_search hFound
  obtain ⟨first, inner, space, last, hTaken, hFirst, hInner, hSpace, hLast⟩ := h.taken hFin
  rw [hRest] at hTaken
  have hMarker : found.text = first :: (inner ++ space :: last) := List.append_cancel_right hTaken
  have hBracket : ∀ x ∈ found.text, x ≠ S.fresh '[' := by
    intro x hx hEq
    have hChar : S.char x = '[' := by rw [hEq, S.char_fresh]
    rw [hMarker, ← List.cons_append] at hx
    rcases List.mem_append.mp hx with hx | hx
    · exact hInner x hx hChar
    · rcases List.mem_cons.mp hx with rfl | hx
      · rw [hSpace] at hChar
        exact absurd hChar (by decide)
      · have hLetter : '[' ∈ "KEY-----".toList := hLast ▸ hChar ▸ List.mem_map_of_mem hx
        exact absurd hLetter (by decide)
  have hDash : first ∉ S.write placeholder := by
    intro hMem
    have hChar := mem_placeholder hMem
    rw [hFirst] at hChar
    exact absurd hChar (by decide)
  -- Each shape in turn leaves the marker where it was.
  have hBack (shapes : List Re) : ∀ text before after : List α,
      shapes.foldl (fun text shape => sub S.toReading shape (S.write placeholder) text) text =
        before ++ (found.text ++ after) →
      ∃ before' after', text = before' ++ (found.text ++ after') := by
    induction shapes with
    | nil => exact fun text before after hEq => ⟨before, after, hEq⟩
    | cons shape shapes ih =>
      intro text before after hEq
      obtain ⟨before', after', hSub⟩ := ih _ before after hEq
      have hMasked := masked_sub (R := S.toReading) shape (S.write placeholder) text
      dsimp only at hSub
      rw [hSub, hMarker] at hMasked
      rw [hMarker] at hBracket ⊢
      exact hMasked.part hBracket hDash
  rw [List.append_assoc, maskEarlier_eq] at hText
  obtain ⟨before', after', rfl⟩ := hBack _ text found.before found.after hText
  exact search_isSome_of_run h.free hFin hRest

theorem IsMarker.none_of_maskEarlier {r : Re} (h : IsMarker r) {w : Bool} {text : List α}
    (hNone : search S.toReading r w text = none) :
    search S.toReading r w (maskEarlier S text) = none := by
  by_contra hSome
  have hFound := h.isSome_of_maskEarlier (Option.isSome_iff_ne_none.mpr hSome) w
  rw [hNone] at hFound
  cases hFound

/-! ## Blocks -/

theorem search_breaks {r : Re} (h : IsMarker r) {w : Bool} {part more : List α}
    (hBreaks : Breaks S part more) :
    search S.toReading r w (part ++ more) =
      match search S.toReading r w part with
      | some found => some (found.extend more)
      | none => (search S.toReading r false more).map fun found => found.shift part := by
  rcases hBreaks with rfl | hEnds
  · rw [List.append_nil, h.takes.search_nil]
    cases search S.toReading r w part with
    | none => rfl
    | some found => simp [Found.extend]
  · obtain ⟨body, b, rfl, hb⟩ := endsWithNewline_iff.mp hEnds
    have hNil : search S.toReading r false [] = none := h.takes.search_nil false
    rw [List.append_assoc, List.singleton_append, search_append (h.barrier hb),
      search_append (h.barrier hb), hNil]
    cases search S.toReading r w body with
    | none => rfl
    | some found => simp [Found.extend]

theorem breaks_after {r : Re} (h : IsMarker r) {w : Bool} {part more : List α} {found : Found α}
    (hBreaks : Breaks S part more) (hFound : search S.toReading r w part = some found) :
    Breaks S found.after more := by
  refine hBreaks.imp_right fun hEnds => ?_
  obtain ⟨body, b, rfl, hb⟩ := endsWithNewline_iff.mp hEnds
  rw [search_append (h.barrier hb), h.takes.search_nil] at hFound
  cases hBody : search S.toReading r w body with
  | none => simp [hBody] at hFound
  | some inner =>
    simp only [hBody, Option.some.injEq] at hFound
    subst hFound
    exact endsWithNewline_iff.mpr ⟨inner.after, b, rfl, hb⟩

theorem pemBegin_isMarker : IsMarker pemBegin := .inl rfl

theorem pemEnd_isMarker : IsMarker pemEnd := .inr rfl

theorem head_rounds_lazy (n : Nat) (w : Bool) (text : List α) (hn : text.length ≤ n) :
    (((rounds (run S.toReading (.cls fun _ => true)) false n ⟨w, text⟩).flatMap
      (run S.toReading pemEnd)).head?.map At.rest) =
      (search S.toReading pemEnd w text).map Found.after := by
  induction n generalizing w text with
  | zero =>
    obtain rfl : text = [] := List.length_eq_zero_iff.mp (Nat.le_zero.mp hn)
    rfl
  | succ n ih =>
    cases text with
    | nil => rfl
    | cons x xs =>
      have hRounds : rounds (run S.toReading (.cls fun _ => true)) false (n + 1) ⟨w, x :: xs⟩ =
          ⟨w, x :: xs⟩ :: rounds (run S.toReading (.cls fun _ => true)) false n
            ⟨S.word (S.char x), xs⟩ := by
        simp [rounds, run]
      rw [hRounds, List.flatMap_cons, List.head?_append, search, first]
      cases hHere : (run S.toReading pemEnd ⟨w, x :: xs⟩).head? with
      | some fin => rfl
      | none =>
        rw [Option.none_or, ih _ xs (by simpa using hn)]
        simp [Function.comp_def, Found.shift]

theorem first_pemPrivateKey (st : At α) :
    (first S.toReading pemPrivateKey st).map At.rest =
      (first S.toReading pemBegin st).map fun mid =>
        match search S.toReading pemEnd false mid.rest with
        | some found => found.after
        | none => mid.rest := by
  rw [first, first, pemPrivateKey, run]
  cases run S.toReading pemBegin st with
  | nil => rfl
  | cons mid mids =>
    have hLazy := head_rounds_lazy (S := S) mid.rest.length mid.afterWord mid.rest (Nat.le_refl _)
    rw [search_free pemEnd_isMarker.free mid.afterWord false] at hLazy
    rw [List.flatMap_cons, List.head?_append, List.head?_cons, Option.map_some, Re.optional, run, run,
      run, run, List.head?_append]
    generalize ((rounds (run S.toReading (.cls fun _ => true)) false mid.rest.length mid).flatMap
      (run S.toReading pemEnd)).head? = lazyEnd at hLazy ⊢
    cases hEnd : search S.toReading pemEnd false mid.rest with
    | none =>
      have hNone : lazyEnd = none := by simpa [hEnd] using hLazy
      rw [hNone]
      rfl
    | some found =>
      obtain ⟨fin, hFin, hRest⟩ : ∃ fin, lazyEnd = some fin ∧ fin.rest = found.after := by
        simpa [hEnd] using hLazy
      rw [hFin]
      exact congrArg some hRest

theorem pemPrivateKey_free : pemPrivateKey.free = true := rfl

theorem pemPrivateKey_takes : Takes S.toReading pemPrivateKey := by
  intro st fin hFirst
  have hRest := first_pemPrivateKey (S := S) st
  rw [hFirst] at hRest
  cases hBegin : first S.toReading pemBegin st with
  | none => simp [hBegin] at hRest
  | some mid =>
    have hShorter := pemBegin_isMarker.takes st mid hBegin
    simp only [hBegin, Option.map_some, Option.some.injEq] at hRest
    rw [hRest]
    split
    · rename_i found hFound
      have hLess := pemEnd_isMarker.takes.after_lt hFound
      omega
    · exact hShorter

theorem search_pemPrivateKey (w : Bool) (text : List α) :
    (search S.toReading pemPrivateKey w text).map (fun found => (found.before, found.after)) =
      (search S.toReading pemBegin w text).map fun begin =>
        (begin.before,
          match search S.toReading pemEnd false begin.after with
          | some found => found.after
          | none => begin.after) := by
  induction text generalizing w with
  | nil => rw [pemPrivateKey_takes.search_nil, pemBegin_isMarker.takes.search_nil]; rfl
  | cons x xs ih =>
    have hFirst := first_pemPrivateKey (S := S) ⟨w, x :: xs⟩
    rw [search, search]
    cases hBegin : first S.toReading pemBegin ⟨w, x :: xs⟩ with
    | none =>
      have hNone : first S.toReading pemPrivateKey ⟨w, x :: xs⟩ = none := by
        simpa [hBegin] using hFirst
      have hRest := congrArg (Option.map fun p => (x :: p.1, p.2)) (ih (S.word (S.char x)))
      simpa [hNone, Option.map_map, Function.comp_def, Found.shift] using hRest
    | some mid =>
      obtain ⟨fin, hFin, hRest⟩ : ∃ fin, first S.toReading pemPrivateKey ⟨w, x :: xs⟩ = some fin ∧
          fin.rest = match search S.toReading pemEnd false mid.rest with
            | some found => found.after
            | none => mid.rest := by
        simpa [hBegin] using hFirst
      rw [hFin]
      exact congrArg (fun rest => some ([], rest)) hRest

/-- Masking blocks goes on behind the first END marker after the first BEGIN marker, or behind that
BEGIN marker when no END follows. -/
theorem maskBlocks_eq (text : List α) :
    maskBlocks S text =
      match search S.toReading pemBegin false text with
      | none => text
      | some begin => begin.before ++ S.write placeholder ++
          maskBlocks S
            (match search S.toReading pemEnd false begin.after with
            | some found => found.after
            | none => begin.after) := by
  have hSearch := search_pemPrivateKey (S := S) false text
  rw [maskBlocks, sub_eq_search pemPrivateKey_free pemPrivateKey_takes]
  cases hBegin : search S.toReading pemBegin false text with
  | none =>
    have hNone : search S.toReading pemPrivateKey false text = none := by
      simpa [hBegin] using hSearch
    rw [hNone]
  | some begin =>
    obtain ⟨found, hFound, hBefore, hAfter⟩ : ∃ found,
        search S.toReading pemPrivateKey false text = some found ∧ found.before = begin.before ∧
          found.after = match search S.toReading pemEnd false begin.after with
            | some found => found.after
            | none => begin.after := by
      simpa [hBegin, Prod.ext_iff] using hSearch
    rw [hFound]
    simp only [hBefore, hAfter]
    rfl

/-- Every block the text opens is closed in it. -/
inductive Closed (S : Script α) : List α → Prop
  | plain {text : List α} : search S.toReading pemBegin false text = none → Closed S text
  | block {text : List α} {begin found : Found α} :
    search S.toReading pemBegin false text = some begin →
    search S.toReading pemEnd false begin.after = some found → Closed S found.after → Closed S text

theorem maskBlocks_plain {part more : List α} (hBreaks : Breaks S part more)
    (hNone : search S.toReading pemBegin false part = none) :
    maskBlocks S (part ++ more) = part ++ maskBlocks S more := by
  rw [maskBlocks_eq (part ++ more), search_breaks pemBegin_isMarker hBreaks, hNone,
    maskBlocks_eq more]
  cases search S.toReading pemBegin false more with
  | none => rfl
  | some begin => simp [Found.shift]

theorem maskBlocks_closed {part more : List α} (hClosed : Closed S part)
    (hBreaks : Breaks S part more) :
    maskBlocks S (part ++ more) = maskBlocks S part ++ maskBlocks S more := by
  induction hClosed with
  | @plain text hNone => rw [maskBlocks_plain hBreaks hNone, maskBlocks_eq text, hNone]
  | @block text begin found hBegin hFound hClosed ih =>
    have hBreaksBegin := breaks_after pemBegin_isMarker hBreaks hBegin
    have hBreaksFound := breaks_after pemEnd_isMarker hBreaksBegin hFound
    rw [maskBlocks_eq (text ++ more), search_breaks pemBegin_isMarker hBreaks, hBegin]
    simp only [Found.extend]
    rw [search_breaks pemEnd_isMarker hBreaksBegin, hFound]
    simp only [Found.extend]
    rw [ih hBreaksFound, maskBlocks_eq text, hBegin]
    simp only [hFound, List.append_assoc]

theorem search_after_none {r : Re} (h : IsMarker r) {before : Re} {w : Bool} {text more : List α}
    {begin : Found α} (hBegin : search S.toReading before w text = some begin)
    (hNone : search S.toReading r false (text ++ more) = none) :
    search S.toReading r false (begin.after ++ more) = none := by
  rw [search_eq hBegin, List.append_assoc] at hNone
  exact search_drop_none h.free hNone

theorem maskBlocks_noEnd {part more : List α} (hBreaks : Breaks S part more)
    (hNone : search S.toReading pemEnd false (part ++ more) = none) :
    maskBlocks S (part ++ more) = maskBlocks S part ++ maskBlocks S more := by
  induction hLength : part.length using Nat.strongRecOn generalizing part with
  | ind n ih =>
    cases hBegin : search S.toReading pemBegin false part with
    | none => rw [maskBlocks_plain hBreaks hBegin, maskBlocks_eq part, hBegin]
    | some begin =>
      have hAfter := search_after_none pemEnd_isMarker hBegin hNone
      have hBreaksBegin := breaks_after pemBegin_isMarker hBreaks hBegin
      have hOwn : search S.toReading pemEnd false begin.after = none := by
        rw [search_breaks pemEnd_isMarker hBreaksBegin] at hAfter
        split at hAfter
        · cases hAfter
        · assumption
      have hShorter := pemBegin_isMarker.takes.after_lt hBegin
      rw [maskBlocks_eq (part ++ more), search_breaks pemBegin_isMarker hBreaks, hBegin]
      simp only [Found.extend, hAfter]
      rw [ih _ (hLength ▸ hShorter) hBreaksBegin hAfter rfl, maskBlocks_eq part, hBegin]
      simp only [hOwn, List.append_assoc]

/-- What the whole-text pass makes of the text to come when a block is open: it goes on behind the END
marker, or masks headers only when none comes. -/
def maskOpen (S : Script α) (text : List α) : List α :=
  match search S.toReading pemEnd false text with
  | some found => maskBlocks S found.after
  | none => maskBlocks S text

/-- A line without END marker in an open block adds to what is shown at most its own text. -/
theorem maskOpen_subset {part more : List α} (hBreaks : Breaks S part more)
    (hNone : search S.toReading pemEnd false part = none) :
    maskOpen S more ⊆ maskOpen S (part ++ more) := by
  intro x hx
  have hSearch := search_breaks pemEnd_isMarker (w := false) hBreaks
  rw [hNone] at hSearch
  rw [maskOpen] at hx ⊢
  cases hMore : search S.toReading pemEnd false more with
  | some found =>
    rw [hSearch, hMore]
    rwa [hMore] at hx
  | none =>
    rw [hMore] at hSearch hx
    have hWhole : search S.toReading pemEnd false (part ++ more) = none := hSearch
    rw [hWhole]
    simp only
    rw [maskBlocks_noEnd hBreaks hWhole]
    exact List.mem_append_right _ hx

theorem maskOpen_found {part more : List α} {found : Found α} (hBreaks : Breaks S part more)
    (hFound : search S.toReading pemEnd false part = some found) (hClosed : Closed S found.after) :
    maskOpen S (part ++ more) = maskBlocks S found.after ++ maskBlocks S more := by
  rw [maskOpen, search_breaks pemEnd_isMarker hBreaks, hFound]
  exact maskBlocks_closed hClosed (breaks_after pemEnd_isMarker hBreaks hFound)

/-! ## The masker's run -/

/-- Nothing but line breaks. -/
def Blank (S : Script α) (text : List α) : Prop := ∀ x ∈ text, S.char x = '\n'

/-- The line shows the masker its markers as they stand once the other shapes are masked, and hides no
second state from it. Outside a block: a BEGIN marker left open is the line's first, and nothing but the
line break follows it. In a block: behind the END marker no BEGIN marker is left open. -/
def CleanStep (S : Script α) (inPem : Nat) (line : List α) : Prop :=
  if inPem = 0 then
    if opensBlock S line then
      ∃ begin, search S.toReading pemBegin false (maskEarlier S line) = some begin ∧ Blank S begin.after
    else Closed S (maskEarlier S line)
  else
    ∀ found, search S.toReading pemEnd false line = some found →
      (search S.toReading pemEnd false (maskEarlier S line)).map Found.after =
        some (maskEarlier S found.after) ∧
      Closed S (maskEarlier S found.after)

/-- Every step of the masker's run is clean in the state it is made in. -/
def CleanRun (S : Script α) : Nat → List (List α) → Prop
  | _, [] => True
  | inPem, line :: lines => CleanStep S inPem line ∧ CleanRun S (maskLine S inPem line).1 lines

/-- The lines of one text: every line but the last ends in a line break. -/
def Lines (S : Script α) : List (List α) → Prop
  | [] => True
  | line :: lines => (lines = [] ∨ endsWithNewline S line = true) ∧ Lines S lines

/-- No END marker in the lines between, and one in the closing line. -/
def ClosesAt (S : Script α) (lines between : List (List α)) : Prop :=
  (∀ line ∈ between, search S.toReading pemEnd false line = none) ∧
    ∃ closing after, lines = between ++ closing :: after ∧
      (search S.toReading pemEnd false closing).isSome

/-- Each block spans at most `pemMaxLines` lines. -/
def BlocksWithin (S : Script α) (lines : List (List α)) : Prop :=
  ∀ before opening rest between, lines = before ++ opening :: rest → opensBlock S opening = true →
    ClosesAt S rest between → between.length + 2 ≤ pemMaxLines

/-- How many lines an open block may still run. -/
def Within (S : Script α) (inPem : Nat) (lines : List (List α)) : Prop :=
  ∀ between, ClosesAt S lines between → inPem + between.length + 1 ≤ pemMaxLines

theorem BlocksWithin.tail {line : List α} {lines : List (List α)}
    (h : BlocksWithin S (line :: lines)) : BlocksWithin S lines :=
  fun before opening rest between hLines =>
    h (line :: before) opening rest between (congrArg (line :: ·) hLines)

theorem BlocksWithin.opened {line : List α} {lines : List (List α)}
    (h : BlocksWithin S (line :: lines)) (hOpens : opensBlock S line = true) : Within S 1 lines := by
  intro between hCloses
  have hBound := h [] line lines between rfl hOpens hCloses
  omega

theorem ClosesAt.cons {line : List α} {lines between : List (List α)} (h : ClosesAt S lines between)
    (hNone : search S.toReading pemEnd false line = none) :
    ClosesAt S (line :: lines) (line :: between) := by
  obtain ⟨hBetween, closing, after, rfl, hClosing⟩ := h
  exact ⟨List.forall_mem_cons.mpr ⟨hNone, hBetween⟩, closing, after, rfl, hClosing⟩

theorem exists_closesAt {lines : List (List α)}
    (h : ∃ line ∈ lines, (search S.toReading pemEnd false line).isSome) :
    ∃ between, ClosesAt S lines between := by
  induction lines with
  | nil => simp at h
  | cons line lines ih =>
    cases hEnd : search S.toReading pemEnd false line with
    | some found => exact ⟨[], by simp, line, lines, rfl, by rw [hEnd]; rfl⟩
    | none =>
      obtain ⟨later, hMem, hLater⟩ := h
      have hTail : later ∈ lines := by
        rcases List.mem_cons.mp hMem with rfl | hMem
        · rw [hEnd] at hLater
          cases hLater
        · exact hMem
      obtain ⟨between, hCloses⟩ := ih ⟨later, hTail, hLater⟩
      exact ⟨line :: between, hCloses.cons hEnd⟩

/-- The text of the lines with the earlier shapes masked. -/
def restOf (S : Script α) (lines : List (List α)) : List α := (lines.map (maskEarlier S)).flatten

theorem restOf_cons (line : List α) (lines : List (List α)) :
    restOf S (line :: lines) = maskEarlier S line ++ restOf S lines := rfl

theorem Lines.breaks {line : List α} {lines : List (List α)} (h : Lines S (line :: lines)) :
    Breaks S line lines.flatten := h.1.imp_left fun hNil => by rw [hNil]; rfl

theorem maskEarlier_flatten {lines : List (List α)} (h : Lines S lines) :
    maskEarlier S lines.flatten = restOf S lines := by
  induction lines with
  | nil => rfl
  | cons line lines ih =>
    rw [List.flatten_cons, maskEarlier_breaks h.breaks, ih h.2]
    rfl

theorem Lines.breaks_rest {line : List α} {lines : List (List α)} (h : Lines S (line :: lines)) :
    Breaks S (maskEarlier S line) (restOf S lines) :=
  h.1.imp (fun hNil => by rw [hNil]; rfl) endsWithNewline_maskEarlier

theorem search_restOf_none {lines : List (List α)} (hLines : Lines S lines)
    (hNone : ∀ line ∈ lines, search S.toReading pemEnd false line = none) :
    search S.toReading pemEnd false (restOf S lines) = none := by
  induction lines with
  | nil => exact pemEnd_isMarker.takes.search_nil false
  | cons line lines ih =>
    obtain ⟨hLine, hNone⟩ := List.forall_mem_cons.mp hNone
    rw [restOf_cons, search_breaks pemEnd_isMarker hLines.breaks_rest,
      pemEnd_isMarker.none_of_maskEarlier hLine, ih hLines.2 hNone]
    rfl

/-- What the whole-text pass makes of the text to come, from the masker's state. -/
def maskRest (S : Script α) (inPem : Nat) (text : List α) : List α :=
  if inPem = 0 then maskBlocks S text else maskOpen S text

/-- Everything shown but replacement text and line breaks stands in the other text. -/
def Shown (S : Script α) (shown text : List α) : Prop :=
  ∀ x ∈ shown, x ∈ text ∨ x ∈ S.write placeholder ∨ S.char x = '\n'

theorem Shown.append {shown shown' text text' : List α} (h : Shown S shown text)
    (h' : Shown S shown' text') : Shown S (shown ++ shown') (text ++ text') := by
  intro x hx
  rcases List.mem_append.mp hx with hx | hx
  · exact (h x hx).imp_left (List.mem_append_left _)
  · exact (h' x hx).imp_left (List.mem_append_right _)

theorem Shown.trans_subset {shown text text' : List α} (h : Shown S shown text)
    (hSub : text ⊆ text') : Shown S shown text' := fun x hx => (h x hx).imp_left fun hx => hSub hx

theorem Shown.refl (text : List α) : Shown S text text := fun _ hx => .inl hx

theorem shown_placeholder (text : List α) : Shown S (S.write placeholder) text :=
  fun _ hx => .inr (.inl hx)

/-! ## One step -/

theorem blank_noEnd {text : List α} (h : Blank S text) :
    search S.toReading pemEnd false text = none := by
  induction text with
  | nil => exact pemEnd_isMarker.takes.search_nil false
  | cons x text ih =>
    obtain ⟨hx, h⟩ := List.forall_mem_cons.mp h
    have hNil : search S.toReading pemEnd false ([] : List α) = none :=
      pemEnd_isMarker.takes.search_nil false
    have hSearch := search_append (pemEnd_isMarker.barrier (S := S) hx) false [] text
    rw [hNil, ih h] at hSearch
    exact hSearch

/-- A line that opens a block: what it shows is shown, and the block is open for the lines to come. -/
theorem shown_opening {line : List α} {more shown : List α} {begin : Found α}
    (hBreaks : Breaks S (maskEarlier S line) more)
    (hBegin : search S.toReading pemBegin false (maskEarlier S line) = some begin)
    (hBlank : Blank S begin.after) (hMore : Shown S shown (maskOpen S more)) :
    Shown S ((maskCredentialShapes S line).1 ++ shown) (maskBlocks S (maskEarlier S line ++ more)) := by
  have hBreaksBegin := breaks_after pemBegin_isMarker hBreaks hBegin
  have hNoEnd := blank_noEnd hBlank
  have hOpen : maskBlocks S (maskEarlier S line ++ more) =
      begin.before ++ S.write placeholder ++ maskOpen S (begin.after ++ more) := by
    rw [maskBlocks_eq, search_breaks pemBegin_isMarker hBreaks, hBegin, maskOpen]
    simp only [Found.extend]
    cases search S.toReading pemEnd false (begin.after ++ more) <;> rfl
  rw [maskCredentialShapes_eq, maskBlocks_eq, hBegin, hOpen]
  simp only [hNoEnd]
  have hLine : Shown S (maskBlocks S begin.after) [] := by
    intro x hx
    rcases mem_sub hx with hx | hx
    · exact .inr (.inl hx)
    · exact .inr (.inr (hBlank x hx))
  have hLater := hMore.trans_subset (maskOpen_subset hBreaksBegin hNoEnd)
  rw [List.append_assoc _ (maskBlocks S begin.after)]
  exact (Shown.refl _).append (hLine.append hLater)

theorem shown_closed {line : List α} {more shown : List α}
    (hBreaks : Breaks S (maskEarlier S line) more) (hClosed : Closed S (maskEarlier S line))
    (hMore : Shown S shown (maskBlocks S more)) :
    Shown S ((maskCredentialShapes S line).1 ++ shown) (maskBlocks S (maskEarlier S line ++ more)) := by
  rw [maskCredentialShapes_eq, maskBlocks_closed hClosed hBreaks]
  exact (Shown.refl _).append hMore

theorem shown_ending {line : List α} {more shown : List α} {found : Found α}
    (hBreaks : Breaks S (maskEarlier S line) more)
    (hAfter : (search S.toReading pemEnd false (maskEarlier S line)).map Found.after =
      some (maskEarlier S found.after))
    (hClosed : Closed S (maskEarlier S found.after)) (hMore : Shown S shown (maskBlocks S more)) :
    Shown S ((S.write placeholder ++ (maskCredentialShapes S found.after).1) ++ shown)
      (maskOpen S (maskEarlier S line ++ more)) := by
  obtain ⟨masked, hMasked, hEq⟩ := Option.map_eq_some_iff.mp hAfter
  rw [maskOpen_found hBreaks hMasked (hEq ▸ hClosed), hEq, maskCredentialShapes_eq, List.append_assoc]
  intro x hx
  rcases List.mem_append.mp hx with hx | hx
  · exact .inr (.inl hx)
  · exact (Shown.refl _).append hMore x hx

theorem shown_hidden {line : List α} {more shown : List α}
    (hBreaks : Breaks S (maskEarlier S line) more)
    (hNone : search S.toReading pemEnd false (maskEarlier S line) = none)
    (hMore : Shown S shown (maskOpen S more)) :
    Shown S ((S.write placeholder ++ if endsWithNewline S line then [S.fresh '\n'] else []) ++ shown)
      (maskOpen S (maskEarlier S line ++ more)) := by
  intro x hx
  simp only [List.mem_append, List.append_assoc] at hx
  rcases hx with hx | hx | hx
  · exact .inr (.inl hx)
  · split at hx
    · obtain rfl := List.mem_singleton.mp hx
      exact .inr (.inr (S.char_fresh '\n'))
    · cases hx
  · exact hMore.trans_subset (maskOpen_subset hBreaks hNone) x hx

theorem shown_givenUp {line : List α} {more shown : List α} {inPem : Nat}
    (hBreaks : Breaks S (maskEarlier S line) more)
    (hNone : search S.toReading pemEnd false (maskEarlier S line ++ more) = none)
    (hMore : Shown S shown (maskRest S inPem more)) :
    Shown S ((maskCredentialShapes S line).1 ++ shown) (maskOpen S (maskEarlier S line ++ more)) := by
  have hMoreNone : search S.toReading pemEnd false more = none :=
    search_drop_none pemEnd_isMarker.free hNone
  have hPlain : maskRest S inPem more = maskBlocks S more := by
    rw [maskRest, maskOpen, hMoreNone]
    simp
  rw [maskOpen, hNone]
  simp only
  rw [maskBlocks_noEnd hBreaks hNone, maskCredentialShapes_eq]
  exact (Shown.refl _).append (hPlain ▸ hMore)

/-! ## The whole run -/

theorem maskLines_shown {lines : List (List α)} (hLines : Lines S lines) :
    ∀ inPem, CleanRun S inPem lines → BlocksWithin S lines → (0 < inPem → Within S inPem lines) →
      Shown S (maskLines S inPem lines).flatten (maskRest S inPem (restOf S lines)) := by
  induction lines with
  | nil => exact fun _ _ _ _ x hx => by simp [maskLines] at hx
  | cons line lines ih =>
    intro inPem hClean hBlocks hWithin
    obtain ⟨hStep, hClean⟩ := hClean
    have hBreaks := hLines.breaks_rest
    have hNext := ih hLines.2 _ hClean hBlocks.tail
    rw [maskLines, List.flatten_cons, restOf_cons]
    rw [maskLine] at hNext ⊢
    by_cases hOutside : inPem = 0
    · simp only [hOutside, if_true, maskOutside, CleanStep] at hStep hNext ⊢
      rw [maskRest, if_pos rfl]
      by_cases hOpens : opensBlock S line = true
      · simp only [hOpens, if_true] at hStep hNext ⊢
        obtain ⟨begin, hBegin, hBlank⟩ := hStep
        exact shown_opening hBreaks hBegin hBlank (hNext fun _ => hBlocks.opened hOpens)
      · simp only [hOpens] at hStep hNext ⊢
        exact shown_closed hBreaks hStep (hNext fun h => absurd h (Nat.lt_irrefl 0))
    · simp only [if_neg hOutside, CleanStep] at hStep hNext ⊢
      rw [maskRest, if_neg hOutside]
      have hBound := hWithin (Nat.pos_of_ne_zero hOutside)
      cases hEnd : search S.toReading pemEnd false line with
      | some found =>
        obtain ⟨hAfter, hClosed⟩ := hStep found hEnd
        simp only [hEnd] at hNext ⊢
        exact shown_ending hBreaks hAfter hClosed (hNext fun h => absurd h (Nat.lt_irrefl 0))
      | none =>
        simp only [hEnd] at hNext ⊢
        have hMasked := pemEnd_isMarker.none_of_maskEarlier hEnd
        by_cases hCount : inPem + 1 ≤ pemMaxLines
        · simp only [if_pos hCount] at hNext ⊢
          refine shown_hidden hBreaks hMasked (hNext fun _ between hCloses => ?_)
          have hLater := hBound _ (hCloses.cons hEnd)
          rw [List.length_cons] at hLater
          omega
        · simp only [if_neg hCount] at hNext ⊢
          have hNoEnd : ∀ later ∈ lines, search S.toReading pemEnd false later = none := by
            intro later hLater
            by_contra hSome
            obtain ⟨between, hCloses⟩ :=
              exists_closesAt ⟨later, hLater, Option.isSome_iff_ne_none.mpr hSome⟩
            have hLonger := hBound _ (hCloses.cons hEnd)
            rw [List.length_cons] at hLonger
            omega
          have hAllNone : search S.toReading pemEnd false (maskEarlier S line ++ restOf S lines) =
              none := by
            rw [search_breaks pemEnd_isMarker hBreaks, hMasked, search_restOf_none hLines.2 hNoEnd]
            rfl
          refine shown_givenUp hBreaks hAllNone (hNext fun _ between hCloses => ?_)
          obtain ⟨-, closing, after, rfl, hClosing⟩ := hCloses
          rw [hNoEnd closing (by simp)] at hClosing
          cases hClosing

end LineMasker

end Bajutsu.Evidence
