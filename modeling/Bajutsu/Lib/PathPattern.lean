import Mathlib.Data.List.Infix
import Mathlib.Data.List.TakeWhile

/-!
# Path patterns

A template is text with parameters in braces. A parameter stands for one or more characters other than a slash, or,
as a path, for any characters; each takes as many as it can. What a template with at most one parameter binds is read off
the text before and after it.
-/

namespace Bajutsu.PathPattern

inductive Piece where
  | text (t : List Char)
  | segment (name : List Char)
  | rest (name : List Char)
  deriving DecidableEq

def isRest (inner : List Char) : Bool := ":path".toList.isSuffixOf inner

/-- The piece of what stands between braces. -/
def parameterPiece (inner : List Char) : Piece :=
  if isRest inner then .rest (inner.take (inner.length - ":path".length)) else .segment inner

/-- `compile_path`, from the text since the last parameter and, in braces, what stands in them so far. -/
def compileFrom (before : List Char) : Option (List Char) → List Char → List Piece
  | none, [] => [.text before]
  | some inner, [] => [.text (before ++ '{' :: inner)]
  | none, c :: template =>
    if c = '{' then compileFrom before (some []) template else compileFrom (before ++ [c]) none template
  | some inner, c :: template =>
    if c = '}' then .text before :: parameterPiece inner :: compileFrom [] none template
    else compileFrom before (some (inner ++ [c])) template

def compilePath (template : List Char) : List Piece := compileFrom [] none template

/-- The first of the beginnings, the longest ones first. -/
def longest {β : Type} (text : List Char) (f : List Char → Option β) : Option β := text.inits.reverse.findSome? f

/-- What the pieces bind where they match the whole text. -/
def bind : List Piece → List Char → Option (List (List Char × List Char))
  | [], text => if text = [] then some [] else none
  | .text t :: pieces, text => if t.isPrefixOf text then bind pieces (text.drop t.length) else none
  | .segment name :: pieces, text =>
    longest (text.takeWhile (· ≠ '/')) fun value =>
      if value = [] then none else (bind pieces (text.drop value.length)).map ((name, value) :: ·)
  | .rest name :: pieces, text =>
    longest text fun value => (bind pieces (text.drop value.length)).map ((name, value) :: ·)

attribute [local simp] compileFrom bind

variable {before inner after value text : List Char} {bound : List (List Char × List Char)}

theorem compileFrom_text (start before after : List Char) (h : '{' ∉ before) :
    compileFrom start none (before ++ after) = compileFrom (start ++ before) none after := by
  induction before generalizing start with
  | nil => rw [List.append_nil, List.nil_append]
  | cons c before ih =>
    rw [List.mem_cons, not_or] at h
    rw [List.cons_append, compileFrom, if_neg (Ne.symm h.1), ih _ h.2, List.append_assoc, List.singleton_append]

theorem compileFrom_inner (start inside inner after : List Char) (h : '}' ∉ inner) :
    compileFrom start (some inside) (inner ++ after) = compileFrom start (some (inside ++ inner)) after := by
  induction inner generalizing inside with
  | nil => rw [List.append_nil, List.nil_append]
  | cons c inner ih =>
    rw [List.mem_cons, not_or] at h
    rw [List.cons_append, compileFrom, if_neg (Ne.symm h.1), ih _ h.2, List.append_assoc, List.singleton_append]

theorem compilePath_text (h : '{' ∉ text) : compilePath text = [.text text] := by
  have hAll := compileFrom_text [] text [] h
  rwa [List.append_nil] at hAll

theorem compilePath_one (hBefore : '{' ∉ before) (hInner : '}' ∉ inner) (hAfter : '{' ∉ after) :
    compilePath (before ++ '{' :: (inner ++ '}' :: after)) = [.text before, parameterPiece inner, .text after] := by
  rw [compilePath, compileFrom_text [] before _ hBefore, List.nil_append, compileFrom, if_pos rfl,
    compileFrom_inner before [] inner _ hInner, List.nil_append, compileFrom, if_pos rfl]
  exact congrArg (fun last => Piece.text before :: parameterPiece inner :: last) (compilePath_text hAfter)

theorem bind_text_iff (t text : List Char) : bind [.text t] text = some bound ↔ text = t ∧ bound = [] := by
  rw [bind]
  constructor
  · intro h
    split at h
    · rename_i hPrefix
      obtain ⟨rest, rfl⟩ := List.isPrefixOf_iff_prefix.mp hPrefix
      rw [List.drop_left, bind] at h
      split at h
      · rename_i hNil
        rw [hNil, List.append_nil]
        exact ⟨rfl, (Option.some.inj h).symm⟩
      · cases h
    · cases h
  · rintro ⟨rfl, rfl⟩
    rw [if_pos (List.isPrefixOf_iff_prefix.mpr (List.prefix_refl _)), List.drop_length]
    rfl

theorem longest_some {β : Type} {f : List Char → Option β} {x : β} (h : longest text f = some x) :
    ∃ value, value <+: text ∧ f value = some x := by
  obtain ⟨value, hMem, hValue⟩ := List.exists_of_findSome?_eq_some h
  exact ⟨value, (List.mem_inits _ _).mp (List.mem_reverse.mp hMem), hValue⟩

theorem longest_isSome {β : Type} {f : List Char → Option β} {x : β} (hPrefix : value <+: text)
    (h : f value = some x) : ∃ y, longest text f = some y := by
  apply Option.isSome_iff_exists.mp
  rw [longest, List.findSome?_isSome_iff]
  exact ⟨value, List.mem_reverse.mpr ((List.mem_inits _ _).mpr hPrefix), by rw [h]; rfl⟩

theorem bind_after (name value after text : List Char) (hValue : value <+: text) :
    (bind [.text after] (text.drop value.length)).map ((name, value) :: ·) = some bound ↔
      text = value ++ after ∧ bound = [(name, value)] := by
  obtain ⟨rest, rfl⟩ := hValue
  rw [List.drop_left, Option.map_eq_some_iff]
  simp only [bind_text_iff, List.append_cancel_left_eq]
  constructor
  · rintro ⟨bound, ⟨rfl, rfl⟩, rfl⟩
    exact ⟨rfl, rfl⟩
  · rintro ⟨rfl, rfl⟩
    exact ⟨[], ⟨rfl, rfl⟩, rfl⟩

/-- At most one of the beginnings leaves the text after the parameter. -/
theorem longest_iff {β : Type} {f : List Char → Option β} {P : List Char → Prop} {g : List Char → β} {source : List Char}
    (hf : ∀ value, value <+: source → ∀ x, f value = some x ↔ P value ∧ text = value ++ after ∧ x = g value) (x : β) :
    longest source f = some x ↔ ∃ value, value <+: source ∧ P value ∧ text = value ++ after ∧ x = g value := by
  constructor
  · intro h
    obtain ⟨value, hPrefix, hValue⟩ := longest_some h
    exact ⟨value, hPrefix, (hf value hPrefix x).mp hValue⟩
  · rintro ⟨value, hPrefix, hP, hText, rfl⟩
    obtain ⟨y, hy⟩ := longest_isSome hPrefix ((hf value hPrefix _).mpr ⟨hP, hText, rfl⟩)
    obtain ⟨value', hPrefix', hValue'⟩ := longest_some hy
    obtain ⟨-, hText', rfl⟩ := (hf value' hPrefix' y).mp hValue'
    obtain rfl := List.append_cancel_right (hText.symm.trans hText')
    exact hy

theorem bind_text_cons (before : List Char) (pieces : List Piece) (rest : List Char) :
    bind (.text before :: pieces) (before ++ rest) = bind pieces rest := by
  rw [bind, if_pos (List.isPrefixOf_iff_prefix.mpr (List.prefix_append _ _)), List.drop_left]

theorem bind_text_cons_some {pieces : List Piece} (h : bind (.text before :: pieces) text = some bound) :
    ∃ rest, text = before ++ rest := by
  rw [bind] at h
  split at h
  · rename_i hPrefix
    obtain ⟨rest, rfl⟩ := List.isPrefixOf_iff_prefix.mp hPrefix
    exact ⟨rest, rfl⟩
  · cases h

theorem bind_segment_iff (before name after text : List Char) :
    bind [.text before, .segment name, .text after] text = some bound ↔
      ∃ value, text = before ++ (value ++ after) ∧ value ≠ [] ∧ '/' ∉ value ∧ bound = [(name, value)] := by
  have hRest (rest : List Char) : bind [.segment name, .text after] rest = some bound ↔
      ∃ value, value <+: rest.takeWhile (· ≠ '/') ∧ value ≠ [] ∧ rest = value ++ after ∧ bound = [(name, value)] := by
    rw [bind]
    refine longest_iff (P := fun value => value ≠ []) (g := fun value => [(name, value)]) (fun value hPrefix x => ?_) bound
    split
    · rename_i hNil
      simp [hNil]
    · rename_i hNe
      rw [bind_after name value after rest (hPrefix.trans (List.takeWhile_prefix _)), and_iff_right hNe]
  constructor
  · intro h
    obtain ⟨rest, rfl⟩ := bind_text_cons_some h
    rw [bind_text_cons, hRest] at h
    obtain ⟨value, hPrefix, hNe, rfl, hBound⟩ := h
    refine ⟨value, rfl, hNe, fun hMem => ?_, hBound⟩
    have hNone := List.mem_takeWhile_imp (hPrefix.subset hMem)
    simp at hNone
  · rintro ⟨value, rfl, hNe, hSlash, hBound⟩
    rw [bind_text_cons, hRest]
    refine ⟨value, ?_, hNe, rfl, hBound⟩
    have hAll : ∀ c ∈ value, decide (c ≠ '/') = true := fun c hMem => decide_eq_true fun hSame => hSlash (hSame ▸ hMem)
    rw [List.takeWhile_append_of_pos hAll]
    exact List.prefix_append _ _

theorem bind_rest_iff (before name after text : List Char) :
    bind [.text before, .rest name, .text after] text = some bound ↔
      ∃ value, text = before ++ (value ++ after) ∧ bound = [(name, value)] := by
  have hRest (rest : List Char) : bind [.rest name, .text after] rest = some bound ↔
      ∃ value, value <+: rest ∧ True ∧ rest = value ++ after ∧ bound = [(name, value)] := by
    rw [bind]
    refine longest_iff (P := fun _ => True) (g := fun value => [(name, value)]) (fun value hPrefix x => ?_) bound
    rw [bind_after name value after rest hPrefix, true_and]
  constructor
  · intro h
    obtain ⟨rest, rfl⟩ := bind_text_cons_some h
    rw [bind_text_cons, hRest] at h
    obtain ⟨value, -, -, rfl, hBound⟩ := h
    exact ⟨value, rfl, hBound⟩
  · rintro ⟨value, rfl, hBound⟩
    rw [bind_text_cons, hRest]
    exact ⟨value, List.prefix_append _ _, trivial, rfl, hBound⟩

end Bajutsu.PathPattern
