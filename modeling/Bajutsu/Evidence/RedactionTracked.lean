import Bajutsu.Evidence.LineMaskerPositions
import Bajutsu.Evidence.Redaction

/-!
# Redacted text with positions

The passes over free text see characters only, so they run over a text whose characters remember where they
stood, and what is masked can be told apart by its position.
-/

namespace Bajutsu.Evidence

open Regex Occurrence

variable {α β : Type}

/-- `str.replace` on symbols that are read as characters. -/
def replaceSymbols (char : α → Char) (term : List Char) (out : List α) : Nat → List α → List α
  | 0, text => text
  | _ + 1, [] => []
  | n + 1, x :: xs =>
    if term.isPrefixOf ((x :: xs).map char) then
      out ++ replaceSymbols char term out n ((x :: xs).drop term.length)
    else x :: replaceSymbols char term out n xs

namespace Redactor

variable (S : Script α) (rt : Runtime)

def keyCutOn (pattern : Keyed × List Char) (text : List α) : List (Piece α) :=
  pattern.1.cut S.toReading (fun _ => some (pattern.2.map S.fresh)) text

def keyPassOn (patterns : List (Keyed × List Char)) (text : List α) : List α :=
  patterns.foldl (fun text pattern => result (keyCutOn S pattern text)) text

def maskTokenOn (values : List (List Char)) (token : List α) : Option (List α) :=
  (maskToken rt values (token.map S.char)).map (List.map S.fresh)

def basicCutOn (values : List (List Char)) (text : List α) : List (Piece α) :=
  rt.basicAuth.cut S.toReading (maskTokenOn S rt values) text

def replaceTermsOn (terms : List (List Char)) (text : List α) : List α :=
  terms.foldl (fun text term => replaceSymbols S.char term (S.write placeholder) text.length text) text

def redactValuesOn (self : Redactor) (text : List α) : List α :=
  replaceTermsOn S (rt.searchTerms self.rawValues)
    (if self.rawValues = [] then text else result (basicCutOn S rt self.rawValues text))

def redactTextOn (self : Redactor) (text : List α) : List α :=
  replaceTermsOn S (rt.searchTerms self.derived)
    (self.redactValuesOn S rt (keyPassOn S (rt.patterns self.keys) text))

end Redactor

/-! ## The same characters in other symbols -/

section Renaming

variable {f : α → β} {S : Script α} {T : Script β}

theorem upTo_map (f : α → β) (text rest : List α) : upTo (text.map f) (rest.map f) = (upTo text rest).map f := by
  rw [upTo, upTo, List.length_map, List.length_map, List.map_take]

namespace Renames

theorem first (h : Renames f S T) (p : Keyed) (st : At α) :
    p.first T.toReading (st.map f) =
      (p.first S.toReading st).map fun ends => (ends.1.map f, ends.2.map f) := by
  rw [Keyed.first, Keyed.first, run_map h.char h.word, List.flatMap_map, ← List.head?_map, List.map_flatMap]
  refine congrArg List.head? (List.flatMap_congr fun mid _ => ?_)
  rw [run_map h.char h.word, List.map_map, List.map_map]
  rfl

theorem result_pieces (h : Renames f S T) (p : Keyed) {out : List α → Option (List α)}
    {out' : List β → Option (List β)} (hOut : ∀ taken, out' (taken.map f) = (out taken).map (List.map f))
    (n : Nat) (st : At α) :
    result (p.pieces T.toReading out' n (st.map f)) = (result (p.pieces S.toReading out n st)).map f := by
  induction n generalizing st with
  | zero =>
    rw [Keyed.pieces, Keyed.pieces, result_allKept, result_allKept]
    rfl
  | succ n ih =>
    rw [Keyed.pieces, Keyed.pieces, h.first]
    cases hFirst : p.first S.toReading st with
    | some ends =>
      obtain ⟨mid, fin⟩ := ends
      simp only [Option.map_some, At.map_rest, upTo_map, hOut, result_append, result_allKept, List.map_append, ih]
      cases out (upTo mid.rest fin.rest) <;> simp [Piece.result]
    | none =>
      obtain ⟨w, _ | ⟨x, rest⟩⟩ := st
      · rfl
      · have hRest := ih ⟨S.word (S.char x), rest⟩
        simp only [At.map] at hRest
        simp only [Option.map_none, At.map, List.map_cons, result_cons, Piece.result, List.map_append, List.map_nil,
          h.char, h.word, hRest]

theorem result_cut (h : Renames f S T) (p : Keyed) {out : List α → Option (List α)}
    {out' : List β → Option (List β)} (hOut : ∀ taken, out' (taken.map f) = (out taken).map (List.map f))
    (text : List α) :
    result (p.cut T.toReading out' (text.map f)) = (result (p.cut S.toReading out text)).map f := by
  rw [Keyed.cut, Keyed.cut, List.length_map]
  exact h.result_pieces p hOut text.length ⟨false, text⟩

theorem map_fresh (h : Renames f S T) (text : List Char) : (text.map S.fresh).map f = text.map T.fresh := by
  rw [List.map_map]
  exact List.map_congr_left fun c _ => h.fresh c

theorem map_char (h : Renames f S T) (text : List α) : (text.map f).map T.char = text.map S.char := by
  rw [List.map_map]
  exact List.map_congr_left fun x _ => h.char x

theorem keyPassOn (h : Renames f S T) (patterns : List (Keyed × List Char)) (text : List α) :
    Redactor.keyPassOn T patterns (text.map f) = (Redactor.keyPassOn S patterns text).map f := by
  induction patterns generalizing text with
  | nil => rfl
  | cons pattern patterns ih =>
    rw [Redactor.keyPassOn, List.foldl_cons, Redactor.keyCutOn,
      h.result_cut pattern.1 fun _ => by rw [Option.map_some, h.map_fresh]]
    exact ih _

theorem replaceSymbols (h : Renames f S T) (term : List Char) (out : List α) (n : Nat) (text : List α) :
    Evidence.replaceSymbols T.char term (out.map f) n (text.map f) =
      (Evidence.replaceSymbols S.char term out n text).map f := by
  induction n generalizing text with
  | zero => rfl
  | succ n ih =>
    cases text with
    | nil => rfl
    | cons x xs =>
      rw [List.map_cons, Evidence.replaceSymbols, Evidence.replaceSymbols, ← List.map_cons, h.map_char]
      split
      · rw [← List.map_drop, ih, List.map_append]
      · rw [ih, List.map_cons]

theorem replaceTermsOn (h : Renames f S T) (terms : List (List Char)) (text : List α) :
    Redactor.replaceTermsOn T terms (text.map f) = (Redactor.replaceTermsOn S terms text).map f := by
  induction terms generalizing text with
  | nil => rfl
  | cons term terms ih =>
    have hTerm := h.replaceSymbols term (S.write placeholder) text.length text
    rw [h.write] at hTerm
    rw [Redactor.replaceTermsOn, List.foldl_cons, List.length_map, hTerm]
    exact ih _

theorem redactTextOn (h : Renames f S T) (rt : Runtime) (self : Redactor) (text : List α) :
    self.redactTextOn T rt (text.map f) = (self.redactTextOn S rt text).map f := by
  have hToken (token : List α) : Redactor.maskTokenOn T rt self.rawValues (token.map f) =
      (Redactor.maskTokenOn S rt self.rawValues token).map (List.map f) := by
    rw [Redactor.maskTokenOn, Redactor.maskTokenOn, h.map_char, Option.map_map]
    exact congrArg (fun g => (Redactor.maskToken rt self.rawValues (token.map S.char)).map g)
      (funext fun out => (h.map_fresh out).symm)
  rw [Redactor.redactTextOn, Redactor.redactTextOn, Redactor.redactValuesOn, Redactor.redactValuesOn, h.keyPassOn]
  split
  · rw [h.replaceTermsOn, h.replaceTermsOn]
  · rw [Redactor.basicCutOn, Redactor.basicCutOn, h.result_cut _ hToken, h.replaceTermsOn, h.replaceTermsOn]

end Renames

end Renaming

/-! ## Plain characters -/

theorem replaceSymbols_id (term out : List Char) (n : Nat) (text : List Char) :
    replaceSymbols (fun c => c) term out n text = replaceTerm term out n text := by
  induction n generalizing text with
  | zero => rfl
  | succ n ih =>
    cases text with
    | nil => rfl
    | cons x xs => rw [replaceSymbols, replaceTerm, List.map_id', ih, ih]

namespace Redactor

theorem redactTextOn_plain (rt : Runtime) (self : Redactor) (text : List Char) :
    self.redactTextOn (.plain rt.word) rt text = self.redactText rt text := by
  have hKey (patterns : List (Keyed × List Char)) (text : List Char) :
      keyPassOn (.plain rt.word) patterns text = keyPass rt patterns text := by
    refine congrArg (fun step => patterns.foldl step text) (funext fun text => funext fun pattern => ?_)
    rw [keyCutOn, keyCut, Script.plain, List.map_id']
    rfl
  have hTerms (terms : List (List Char)) (text : List Char) :
      replaceTermsOn (.plain rt.word) terms text = replaceTerms terms text := by
    refine congrArg (fun step => terms.foldl step text) (funext fun text => funext fun term => ?_)
    rw [replace, Script.write, Script.plain, List.map_id', ← replaceSymbols_id]
  have hToken (values : List (List Char)) : maskTokenOn (.plain rt.word) rt values = maskToken rt values := by
    funext token
    rw [maskTokenOn, Script.plain, List.map_id']
    exact (congrArg (fun g => (maskToken rt values token).map g) (funext List.map_id')).trans Option.map_id'
  rw [redactTextOn, redactValuesOn, hKey, hTerms, hTerms, basicCutOn, hToken]
  rfl

theorem redactTextOn_tracked (rt : Runtime) (self : Redactor) (text : List Tracked) :
    (self.redactTextOn (.tracked rt.word) rt text).map Prod.fst = self.redactText rt (text.map Prod.fst) := by
  rw [← (renames_fst rt.word).redactTextOn, redactTextOn_plain]

end Redactor

/-! ## What is left of a text -/

section Left

variable {S : Script α} {rt : Runtime}

theorem mem_result {pieces : List (Piece α)} {x : α} (hx : x ∈ result pieces) :
    x ∈ source pieces ∨ ∃ taken out, .replaced taken out ∈ pieces ∧ x ∈ out := by
  obtain ⟨piece, hPiece, hx⟩ := List.mem_flatMap.mp hx
  cases piece with
  | kept y => exact .inl (List.mem_flatMap.mpr ⟨_, hPiece, hx⟩)
  | replaced taken out => exact .inr ⟨taken, out, hPiece, hx⟩

/-- A symbol of the text, or one that was written for it. -/
def Stems (S : Script α) (text : List α) (x : α) : Prop := x ∈ text ∨ ∃ c, x = S.fresh c

theorem Stems.trans {text later : List α} {x : α} (h : Stems S later x) (hLater : ∀ y ∈ later, Stems S text y) :
    Stems S text x := by
  obtain hx | hx := h
  · exact hLater x hx
  · exact .inr hx

theorem stems_cut {p : Keyed} {out : List α → Option (List α)}
    (hOut : ∀ taken written, out taken = some written → ∃ text : List Char, written = text.map S.fresh)
    {text : List α} {x : α} (hx : x ∈ result (p.cut S.toReading out text)) : Stems S text x := by
  obtain hx | ⟨taken, written, hPiece, hx⟩ := mem_result hx
  · rw [Keyed.source_cut] at hx
    exact .inl hx
  · obtain ⟨chars, rfl⟩ := hOut taken written (Keyed.replaced_mem hPiece)
    obtain ⟨c, -, rfl⟩ := List.mem_map.mp hx
    exact .inr ⟨c, rfl⟩

theorem stems_keyPassOn {patterns : List (Keyed × List Char)} {text : List α} {x : α}
    (hx : x ∈ Redactor.keyPassOn S patterns text) : Stems S text x := by
  induction patterns generalizing text with
  | nil => exact .inl hx
  | cons pattern patterns ih =>
    apply (ih hx).trans
    intro y hy
    apply stems_cut (fun taken written hSame => ?_) hy
    exact ⟨pattern.2, (Option.some.inj hSame).symm⟩

theorem stems_replaceSymbols {term : List Char} {out : List Char} {n : Nat} {text : List α} {x : α}
    (hx : x ∈ replaceSymbols S.char term (out.map S.fresh) n text) : Stems S text x := by
  induction n generalizing text with
  | zero => exact .inl hx
  | succ n ih =>
    cases text with
    | nil => exact .inl hx
    | cons y ys =>
      rw [replaceSymbols] at hx
      split at hx
      · obtain hx | hx := List.mem_append.mp hx
        · obtain ⟨c, -, rfl⟩ := List.mem_map.mp hx
          exact .inr ⟨c, rfl⟩
        · exact (ih hx).imp_left List.mem_of_mem_drop
      · obtain rfl | hx := List.mem_cons.mp hx
        · exact .inl List.mem_cons_self
        · exact (ih hx).imp_left (List.mem_cons_of_mem y)

theorem stems_replaceTermsOn {terms : List (List Char)} {text : List α} {x : α}
    (hx : x ∈ Redactor.replaceTermsOn S terms text) : Stems S text x := by
  induction terms generalizing text with
  | nil => exact .inl hx
  | cons term terms ih => exact (ih hx).trans fun y hy => stems_replaceSymbols hy

theorem stems_redactTextOn {self : Redactor} {text : List α} {x : α} (hx : x ∈ self.redactTextOn S rt text) :
    Stems S text x := by
  apply (stems_replaceTermsOn hx).trans
  intro y hy
  apply (stems_replaceTermsOn hy).trans
  intro z hz
  have hKey : ∀ w ∈ Redactor.keyPassOn S (rt.patterns self.keys) text, Stems S text w :=
    fun w hw => stems_keyPassOn hw
  split at hz
  · exact hKey z hz
  · apply Stems.trans _ hKey
    apply stems_cut (fun taken written hSame => ?_) hz
    obtain ⟨chars, -, rfl⟩ := Option.map_eq_some_iff.mp hSame
    exact ⟨chars, rfl⟩

end Left

end Bajutsu.Evidence
