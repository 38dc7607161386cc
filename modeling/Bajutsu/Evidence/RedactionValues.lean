import Bajutsu.Evidence.RedactionLeak

/-!
# What the value pass leaves

The search terms are replaced one after another. A term that cannot overlap the placeholder is gone once it is
replaced, and no later replacement brings it back. A Basic token is judged before its tail may be replaced, so
what a second pass would mask are tokens that the first has cut short.
-/

namespace Bajutsu.Evidence

open Regex Occurrence

namespace Redactor

theorem replaceTerms_removes {terms : List (List Char)} (hTerms : ∀ term ∈ terms, term ≠ [])
    (hClear : ∀ term ∈ terms, Clear term placeholder.toList) (text : List Char) :
    (∀ term ∈ terms, ¬term <:+: replaceTerms terms text) ∧
      ∀ other ≠ [], Clear other placeholder.toList → ¬other <:+: text → ¬other <:+: replaceTerms terms text := by
  induction terms generalizing text with
  | nil => exact ⟨by simp, fun _ _ _ h => h⟩
  | cons term terms ih =>
    obtain ⟨hTerm, hTerms⟩ := List.forall_mem_cons.mp hTerms
    obtain ⟨hHere, hClear⟩ := List.forall_mem_cons.mp hClear
    obtain ⟨hLater, hKept⟩ := ih hTerms hClear (replace term placeholder.toList text)
    constructor
    · intro other hOther
      obtain rfl | hOther := List.mem_cons.mp hOther
      · exact hKept other hTerm hHere (replace_removes hTerm hHere text)
      · exact hLater other hOther
    · intro other hNe hOther hAbsent
      apply hKept other hNe hOther
      exact absent_replace hNe hOther hAbsent

theorem searchTerm_ne_nil {rt : Runtime} {keys values : List (List Char)} {term : List Char}
    (h : term ∈ rt.searchTerms (make keys values).rawValues) : term ≠ [] := by
  obtain ⟨value, hValue, hTerm⟩ := mem_searchTerms_all h
  have hNe : value ≠ [] := by simpa using (List.mem_filter.mp hValue).2
  exact forms_ne_nil hNe hTerm

/-- No Basic token of the text decodes to a text with a secret in it. -/
def NoBasicSecret (rt : Runtime) (self : Redactor) (text : List Char) : Prop :=
  ∀ token out, .replaced token out ∉ basicCut rt self.rawValues text

theorem redactBasicAuth_eq_self {rt : Runtime} {self : Redactor} {text : List Char}
    (h : NoBasicSecret rt self text) : self.redactBasicAuth rt text = text :=
  Keyed.result_of_none h

theorem basicCut_clearOf {rt : Runtime} {values : List (List Char)} {term : List Char}
    (h : Clear term placeholder.toList) (text : List Char) : ClearOf term (basicCut rt values text) := by
  intro token out hMem
  have hOut := Keyed.replaced_mem hMem
  rw [maskToken] at hOut
  split at hOut
  · split at hOut
    · cases hOut
      exact h
    · cases hOut
  · cases hOut

theorem absent_redactBasicAuth {rt : Runtime} {self : Redactor} {term text : List Char} (hTerm : term ≠ [])
    (hClear : Clear term placeholder.toList) (h : ¬term <:+: text) :
    ¬term <:+: self.redactBasicAuth rt text := by
  apply absent_result hTerm (basicCut_clearOf hClear text)
  rwa [basicCut, Keyed.source_cut]

variable {rt : Runtime} {keys values : List (List Char)}

theorem redactValues_absent
    (hClear : ∀ term ∈ rt.searchTerms (make keys values).rawValues, Clear term placeholder.toList)
    (text : List Char) :
    ∀ term ∈ rt.searchTerms (make keys values).rawValues, ¬term <:+: (make keys values).redactValues rt text := by
  intro term hTerm
  exact (replaceTerms_removes (fun _ h => searchTerm_ne_nil h) hClear _).1 term hTerm

theorem redactBasicAuth_no_values {self : Redactor} (h : self.rawValues = []) (text : List Char) :
    self.redactBasicAuth rt text = text := by
  apply redactBasicAuth_eq_self
  intro token out hMem
  have hOut := Keyed.replaced_mem hMem
  rw [maskToken, h] at hOut
  split at hOut
  · cases hOut
  · cases hOut

theorem redactValues_of_absent
    (hClear : ∀ term ∈ rt.searchTerms (make keys values).rawValues, Clear term placeholder.toList)
    {text : List Char} (h : ∀ term ∈ rt.searchTerms (make keys values).rawValues, ¬term <:+: text) :
    (make keys values).redactValues rt text = (make keys values).redactBasicAuth rt text := by
  have hBasic : (if (make keys values).rawValues = [] then text else (make keys values).redactBasicAuth rt text) =
      (make keys values).redactBasicAuth rt text := by
    split
    · rename_i hNone
      exact (redactBasicAuth_no_values hNone text).symm
    · rfl
  rw [redactValues, hBasic]
  apply replaceTerms_absent
  intro term hTerm
  exact absent_redactBasicAuth (searchTerm_ne_nil hTerm) (hClear term hTerm) (h term hTerm)

/-- No term is left, and what a second pass does is mask the Basic tokens that decode to a secret now. -/
theorem redactValues_leaves_none (rt : Runtime) (keys values : List (List Char)) (text : List Char)
    (hClear : ∀ term ∈ rt.searchTerms (make keys values).rawValues, Clear term placeholder.toList) :
    (∀ term ∈ rt.searchTerms (make keys values).rawValues,
      ¬term <:+: (make keys values).redactValues rt text) ∧
    (make keys values).redactValues rt ((make keys values).redactValues rt text) =
      (make keys values).redactBasicAuth rt ((make keys values).redactValues rt text) ∧
    (NoBasicSecret rt (make keys values) ((make keys values).redactValues rt text) →
      (make keys values).redactValues rt ((make keys values).redactValues rt text) =
        (make keys values).redactValues rt text) := by
  have hAbsent := redactValues_absent hClear text
  have hAgain := redactValues_of_absent hClear hAbsent
  refine ⟨hAbsent, hAgain, fun hNone => ?_⟩
  rw [hAgain]
  exact redactBasicAuth_eq_self hNone

/-! ## A token that the value pass cuts -/

def base64Digit (c : Char) : Option Nat :=
  if c ∈ Runtime.base64Alphabet then some (Runtime.base64Alphabet.idxOf c) else none

/-- An ASCII byte decodes to itself; every other byte is taken to be malformed. -/
def utf8Replace (bytes : List Nat) : List Char :=
  bytes.map fun byte => if byte < 128 then Char.ofNat byte else Char.ofNat 0xfffd

/-- Four characters of a token, the last ones possibly padding. -/
def base64Group (a b c d : Char) (last : Bool) : Option (List Nat) :=
  match base64Digit a, base64Digit b, base64Digit c, base64Digit d with
  | some w, some x, some y, some z => some [w * 4 + x / 16, x % 16 * 16 + y / 4, y % 4 * 64 + z]
  | some w, some x, some y, none =>
    if last && d = '=' then some [w * 4 + x / 16, x % 16 * 16 + y / 4] else none
  | some w, some x, none, none => if last && c = '=' && d = '=' then some [w * 4 + x / 16] else none
  | _, _, _, _ => none

/-- `base64.b64decode(token, validate=True)` -/
def b64decode : List Char → Option (List Nat)
  | [] => some []
  | a :: b :: c :: d :: rest =>
    match base64Group a b c d rest.isEmpty, b64decode rest with
    | some bytes, some more => some (bytes ++ more)
    | _, _ => none
  | _ => none

theorem base64Group_length {a b c d : Char} {last : Bool} {bytes : List Nat}
    (h : base64Group a b c d last = some bytes) : bytes.length ≤ 4 := by
  unfold base64Group at h
  split at h
  · cases h
    simp
  · split at h
    · cases h
      simp
    · cases h
  · split at h
    · cases h
      simp
    · cases h
  · cases h

theorem b64decode_length (token : List Char) (bytes : List Nat) (h : b64decode token = some bytes) :
    bytes.length ≤ token.length := by
  fun_induction b64decode token generalizing bytes with
  | case1 =>
    cases h
    exact Nat.le_refl _
  | case2 a b c d rest group more hMore hGroup ih =>
    cases h
    have hFour := base64Group_length hGroup
    have hRest := ih more hMore
    simp only [List.length_append, List.length_cons]
    omega
  | case3 => cases h
  | case4 => cases h

theorem toLower_same (c : Char) : (c.toLower == c.toLower) = true := beq_self_eq_true _

theorem terms_perm (terms : List (List Char)) : terms.Perm terms := .refl _

def base64Runtime : Runtime where
  word := asciiWords
  same c d := c.toLower == d.toLower
  same_self := toLower_same
  setOrder terms := terms
  setOrder_perm := terms_perm
  decodeToken token := (b64decode token).map utf8Replace
  decodeToken_length token decoded h := by
    obtain ⟨bytes, hBytes, rfl⟩ := Option.map_eq_some_iff.mp h
    rw [utf8Replace, List.length_map]
    exact b64decode_length token bytes hBytes

/-- `usr:token` in base64 and `token` right behind it: seventeen characters, which decode to nothing. -/
def longToken : List Char := "Basic dXNyOnRva2Vutoken".toList

theorem token_clear :
    ∀ term ∈ base64Runtime.searchTerms (make [] ["token".toList]).rawValues, Clear term placeholder.toList := by
  have hTerms : base64Runtime.searchTerms (make [] ["token".toList]).rawValues = ["token".toList] := by
    decide +kernel
  intro term hTerm
  rw [hTerms] at hTerm
  cases List.mem_singleton.mp hTerm
  exact @Clear.of_mem Char "token".toList placeholder.toList 't' '[' ']' (by decide) (by decide) rfl (by decide)
    rfl (by decide)

theorem redactValues_leaves_none_token :
    ¬"token".toList <:+: (make [] ["token".toList]).redactValues base64Runtime longToken := by
  apply (redactValues_leaves_none base64Runtime [] ["token".toList] longToken token_clear).1
  decide +kernel

/-- The value pass leaves the first twelve characters of the token, and these decode to the secret. -/
theorem redactValues_again :
    ¬∀ (rt : Runtime) (keys values : List (List Char)) (text : List Char),
      (∀ term ∈ rt.searchTerms (make keys values).rawValues, Clear term placeholder.toList) →
      (∀ term ∈ rt.searchTerms (make keys values).rawValues,
        ¬term <:+: (make keys values).redactValues rt text) ∧
      (make keys values).redactValues rt ((make keys values).redactValues rt text) =
        (make keys values).redactValues rt text := by
  intro hAll
  have hAgain := (hAll base64Runtime [] ["token".toList] longToken token_clear).2
  have hFirst : (make [] ["token".toList]).redactValues base64Runtime longToken =
      "Basic dXNyOnRva2Vu[REDACTED]".toList := by decide +kernel
  have hSecond : (make [] ["token".toList]).redactValues base64Runtime "Basic dXNyOnRva2Vu[REDACTED]".toList =
      "Basic [REDACTED][REDACTED]".toList := by decide +kernel
  rw [hFirst, hSecond] at hAgain
  exact absurd hAgain (by decide)

end Redactor

end Bajutsu.Evidence
