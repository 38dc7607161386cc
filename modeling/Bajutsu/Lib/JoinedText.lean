import Mathlib.Data.String.Basic
import Mathlib.Tactic.Common
import Std.Data.String.ToInt

/-!
# Texts put together with a separator

What was joined with a character can be told apart again where the parts do not hold it.
-/

namespace Bajutsu.JoinedText

theorem first_part {sep : Char} {a b x y : List Char} (ha : sep ∉ a) (hb : sep ∉ b)
    (h : a ++ sep :: x = b ++ sep :: y) : a = b ∧ x = y := by
  induction a generalizing b with
  | nil =>
    cases b with
    | nil => exact ⟨rfl, (List.cons.inj h).2⟩
    | cons c b => exact absurd ((List.cons.inj h).1 ▸ List.mem_cons_self) hb
  | cons d a ih =>
    cases b with
    | nil => exact absurd ((List.cons.inj h).1 ▸ List.mem_cons_self) ha
    | cons c b =>
      rw [List.cons_append, List.cons_append, List.cons.injEq] at h
      rw [List.mem_cons, not_or] at ha hb
      obtain ⟨hRest, hEq⟩ := ih ha.2 hb.2 h.2
      exact ⟨by rw [h.1, hRest], hEq⟩

theorem last_part {sep : Char} {a b x y : List Char} (hx : sep ∉ x) (hy : sep ∉ y)
    (h : a ++ sep :: x = b ++ sep :: y) : a = b ∧ x = y := by
  have hReversed : x.reverse ++ sep :: a.reverse = y.reverse ++ sep :: b.reverse := by
    simpa using congrArg List.reverse h
  obtain ⟨hLast, hFirst⟩ := first_part (by simpa using hx) (by simpa using hy) hReversed
  exact ⟨List.reverse_injective hFirst, List.reverse_injective hLast⟩

theorem join_injective {sep : Char} {xs ys : List String} (hx : xs ≠ []) (hy : ys ≠ [])
    (hxs : ∀ x ∈ xs, sep ∉ x.toList) (hys : ∀ y ∈ ys, sep ∉ y.toList)
    (h : (String.singleton sep).intercalate xs = (String.singleton sep).intercalate ys) : xs = ys := by
  have hList := congrArg String.toList h
  rw [String.toList_intercalate, String.toList_intercalate, String.toList_singleton] at hList
  have hSplit := congrArg (List.splitOn sep) hList
  have hParts : ∀ zs : List String, zs ≠ [] → (∀ z ∈ zs, sep ∉ z.toList) →
      ([sep].intercalate (zs.map String.toList)).splitOn sep = zs.map String.toList := by
    intro zs hNe hFree
    apply List.splitOn_intercalate sep
    · intro part hMem
      obtain ⟨z, hz, rfl⟩ := List.mem_map.mp hMem
      exact hFree z hz
    · simpa using hNe
  rw [hParts xs hx hxs, hParts ys hy hys] at hSplit
  exact List.map_injective_iff.mpr (fun _ _ => String.toList_inj.mp) hSplit

/-- As `join_injective`, for lists of parts that are not empty. -/
theorem join_injective_of_ne_empty {sep : Char} {xs ys : List String} (hxs : ∀ x ∈ xs, x ≠ "" ∧ sep ∉ x.toList)
    (hys : ∀ y ∈ ys, y ≠ "" ∧ sep ∉ y.toList)
    (h : (String.singleton sep).intercalate xs = (String.singleton sep).intercalate ys) : xs = ys := by
  have hEmpty : ∀ zs : List String, (∀ z ∈ zs, z ≠ "" ∧ sep ∉ z.toList) →
      (String.singleton sep).intercalate zs = "" → zs = [] := by
    intro zs hzs hJoin
    cases zs with
    | nil => rfl
    | cons z zs =>
      have hFirst : z = "" := by
        cases zs with
        | nil => rwa [String.intercalate_singleton] at hJoin
        | cons w zs =>
          rw [String.intercalate_cons_cons] at hJoin
          simp at hJoin
      exact absurd hFirst (hzs z List.mem_cons_self).1
  by_cases hx : xs = []
  · subst hx
    rw [String.intercalate_nil] at h
    exact (hEmpty ys hys h.symm).symm
  by_cases hy : ys = []
  · subst hy
    rw [String.intercalate_nil] at h
    exact hEmpty xs hxs h
  exact join_injective hx hy (fun x hMem => (hxs x hMem).2) (fun y hMem => (hys y hMem).2) h

theorem not_mem_join {sep : Char} {xs : List String} {c : Char} (hSep : c ≠ sep) (hxs : ∀ x ∈ xs, c ∉ x.toList) :
    c ∉ ((String.singleton sep).intercalate xs).toList := by
  induction xs with
  | nil => simp
  | cons x xs ih =>
    obtain ⟨hx, hxs⟩ := List.forall_mem_cons.mp hxs
    cases xs with
    | nil => rwa [String.intercalate_singleton]
    | cons y xs =>
      rw [String.intercalate_cons_cons, String.toList_append, String.toList_append, List.mem_append, List.mem_append,
        not_or, not_or, String.toList_singleton, List.mem_singleton]
      exact ⟨⟨hx, hSep⟩, ih hxs⟩

/-- An integer is written with digits, and a dash. -/
theorem not_mem_int {c : Char} (hDigit : c.isDigit = false) (hDash : c ≠ '-') (i : Int) : c ∉ (toString i).toList := by
  have hNat : ∀ n : Nat, c ∉ n.repr.toList := by
    intro n hMem
    rw [Nat.toList_repr] at hMem
    have hIs := Nat.isDigit_of_mem_toDigits (by omega) (by omega) hMem
    rw [hDigit] at hIs
    cases hIs
  rw [Int.toString_eq_repr, Int.repr_eq_if]
  split
  · exact hNat _
  · rw [String.toList_append, List.mem_append, not_or]
    exact ⟨by simpa using hDash, hNat _⟩

end Bajutsu.JoinedText
