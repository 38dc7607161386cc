import Bajutsu.Lib.PyText
import Bajutsu.Lib.PyValue

/-!
# Tokens in scenario data

A token `${key}` whose key is bound is replaced by its value, in every text of a value. Any other token is left.
-/

namespace Bajutsu.Scenarios

open PyValue

/-- `\$\{([^}]+)\}` at the start of a text: the key as it is written, and what follows. -/
def token : List Char → Option (List Char × List Char)
  | '$' :: '{' :: rest =>
    match rest.takeWhile (· ≠ '}'), rest.dropWhile (· ≠ '}') with
    | [], _ => none
    | key, '}' :: after => some (key, after)
    | _, _ => none
  | _ => none

inductive Piece where
  | char (c : Char)
  | token (key : List Char)

/-- The tokens of a text from left to right, and the characters between them. -/
def cut : Nat → List Char → List Piece
  | 0, _ => []
  | _, [] => []
  | n + 1, c :: text =>
    match token (c :: text) with
    | some (key, after) => .token key :: cut n after
    | none => .char c :: cut n text

def pieces (text : String) : List Piece := cut text.toList.length text.toList

def keyOf (key : List Char) : String := String.ofList (PyText.strip key)

def Piece.interp (bindings : List (String × String)) : Piece → List Char
  | .char c => [c]
  | .token key =>
    match get bindings (keyOf key) with
    | some value => value.toList
    | none => '$' :: '{' :: key ++ ['}']

/-- `_interp_str`, whose whole-text case gives a bound text as it is. -/
def interpStr (bindings : List (String × String)) (text : String) : String :=
  String.ofList ((pieces text).flatMap (Piece.interp bindings))

mutual
def interpolate (bindings : List (String × String)) : Val → Val
  | .str text => .str (interpStr bindings text)
  | .dict items => .dict (interpolateItems bindings items)
  | .list values => .list (interpolateAll bindings values)
  | .null => .null
  | .bool b => .bool b
  | .int i => .int i
  | .float f => .float f
  | .tuple values => .tuple values

def interpolateAll (bindings : List (String × String)) : List Val → List Val
  | [] => []
  | value :: values => interpolate bindings value :: interpolateAll bindings values

def interpolateItems (bindings : List (String × String)) : List (String × Val) → List (String × Val)
  | [] => []
  | (key, value) :: items => (key, interpolate bindings value) :: interpolateItems bindings items
end

def tokensOf (text : String) : List String :=
  (pieces text).filterMap fun
    | .char _ => none
    | .token key => some (keyOf key)

mutual
/-- Every token key of a value, its dictionaries' keys left out. -/
def findTokens : Val → List String
  | .str text => tokensOf text
  | .dict items => findTokensItems items
  | .list values => findTokensAll values
  | _ => []

def findTokensAll : List Val → List String
  | [] => []
  | value :: values => findTokens value ++ findTokensAll values

def findTokensItems : List (String × Val) → List String
  | [] => []
  | (_, value) :: items => findTokens value ++ findTokensItems items
end

/-! ## A value is the same under bindings that agree on its tokens -/

variable {b₁ b₂ : List (String × String)}

theorem interpStr_congr {text : String} (h : ∀ token ∈ tokensOf text, get b₁ token = get b₂ token) :
    interpStr b₁ text = interpStr b₂ text := by
  have hPiece : ∀ piece ∈ pieces text, Piece.interp b₁ piece = Piece.interp b₂ piece := by
    intro piece hMem
    cases piece with
    | char c => rfl
    | token key =>
      have hToken : keyOf key ∈ tokensOf text := List.mem_filterMap.mpr ⟨.token key, hMem, rfl⟩
      rw [Piece.interp, Piece.interp, h _ hToken]
  rw [interpStr, interpStr, List.flatMap_congr hPiece]

mutual
theorem interpolate_congr {value : Val} (h : ∀ token ∈ findTokens value, get b₁ token = get b₂ token) :
    interpolate b₁ value = interpolate b₂ value := by
  cases value with
  | str text => exact congrArg Val.str (interpStr_congr h)
  | dict items => exact congrArg Val.dict (interpolateItems_congr h)
  | list values => exact congrArg Val.list (interpolateAll_congr h)
  | _ => rfl

theorem interpolateAll_congr {values : List Val} (h : ∀ token ∈ findTokensAll values, get b₁ token = get b₂ token) :
    interpolateAll b₁ values = interpolateAll b₂ values := by
  cases values with
  | nil => rfl
  | cons value values =>
    rw [findTokensAll] at h
    rw [interpolateAll, interpolateAll, interpolate_congr fun token hMem => h token (List.mem_append_left _ hMem),
      interpolateAll_congr fun token hMem => h token (List.mem_append_right _ hMem)]

theorem interpolateItems_congr {items : List (String × Val)}
    (h : ∀ token ∈ findTokensItems items, get b₁ token = get b₂ token) :
    interpolateItems b₁ items = interpolateItems b₂ items := by
  cases items with
  | nil => rfl
  | cons item items =>
    rw [findTokensItems] at h
    rw [interpolateItems, interpolateItems, interpolate_congr fun token hMem => h token (List.mem_append_left _ hMem),
      interpolateItems_congr fun token hMem => h token (List.mem_append_right _ hMem)]
end

theorem interpolateAll_eq_map (b : List (String × String)) (values : List Val) :
    interpolateAll b values = values.map (interpolate b) := by
  induction values with
  | nil => rfl
  | cons value values ih => rw [interpolateAll, ih, List.map_cons]

theorem mem_findTokensAll {token : String} {values : List Val} :
    token ∈ findTokensAll values ↔ ∃ value ∈ values, token ∈ findTokens value := by
  induction values with
  | nil => simp [findTokensAll]
  | cons value values ih => simp [findTokensAll, ih]

end Bajutsu.Scenarios
