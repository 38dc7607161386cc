import Bajutsu.Lib.PyValue
import Bajutsu.Lib.Raising
import Mathlib.Data.List.Perm.Basic
import Mathlib.Data.List.Sort

/-!
# What does not depend on the input order

A loop, a grouping by a key and a sort by a key, each over a list in any order. A stable sort leaves elements of equal keys
in their input order, so what is read from its result, or from its first elements, is the same for every order where the
elements that tie agree in it.
-/

namespace Bajutsu.InputOrder

open PyValue

section Loops

variable {α β γ κ ε : Type} {xs ys : List α}

theorem mapM_perm {f : α → Except ε β} (h : xs.Perm ys) {us : List β} (hUs : xs.mapM f = .ok us) :
    ∃ vs, ys.mapM f = .ok vs ∧ vs.Perm us := by
  obtain ⟨vs, hVs, hPerm⟩ := List.perm_comp_forall₂ h.symm (Raising.mapM_eq_ok_iff.mp hUs)
  exact ⟨vs, Raising.mapM_eq_ok_iff.mpr hVs, hPerm⟩

theorem exists_views {r r' : α → β → Prop} {view : β → γ} {us : List β} (h : List.Forall₂ r xs us)
    (hStep : ∀ x ∈ xs, ∀ u, r x u → ∃ v, r' x v ∧ view v = view u) :
    ∃ vs, List.Forall₂ r' xs vs ∧ vs.map view = us.map view := by
  induction h with
  | nil => exact ⟨[], .nil, rfl⟩
  | cons hHead _ ih =>
    obtain ⟨v, hv, hView⟩ := hStep _ List.mem_cons_self _ hHead
    obtain ⟨vs, hVs, hViews⟩ := ih fun x hx => hStep x (List.mem_cons_of_mem _ hx)
    exact ⟨v :: vs, .cons hv hVs, by rw [List.map_cons, List.map_cons, hView, hViews]⟩

variable [DecidableEq κ]

theorem groupBy_eq_map (f : α → κ) (xs : List α) :
    groupBy f xs = ((groupBy f xs).map Prod.fst).map fun k => (k, xs.filter fun x => f x = k) := by
  rw [List.map_map]
  conv_lhs => rw [← List.map_id (groupBy f xs)]
  apply List.map_congr_left
  rintro ⟨k, group⟩ hMem
  obtain ⟨-, rfl⟩ := (mem_groupBy_iff f xs k group).mp hMem
  rfl

theorem keys_perm (f : α → κ) (h : xs.Perm ys) :
    ((groupBy f xs).map Prod.fst).Perm ((groupBy f ys).map Prod.fst) := by
  rw [List.perm_ext_iff_of_nodup (keys_groupBy f xs).1 (keys_groupBy f ys).1]
  intro k
  rw [(keys_groupBy f xs).2, (keys_groupBy f ys).2]
  exact (h.map f).mem_iff

/-- A loop over the groups gives the same views, where it gives one view of each group in both orders. -/
theorem groups_perm {f : α → κ} {score : κ × List α → Except ε β} {view : β → γ} (h : xs.Perm ys)
    (hScore : ∀ k ∈ xs.map f, ∀ u, score (k, xs.filter fun x => f x = k) = .ok u →
      ∃ v, score (k, ys.filter fun x => f x = k) = .ok v ∧ view v = view u)
    {us : List β} (hUs : (groupBy f xs).mapM score = .ok us) :
    ∃ vs, (groupBy f ys).mapM score = .ok vs ∧ (vs.map view).Perm (us.map view) := by
  rw [groupBy_eq_map, Raising.mapM_eq_ok_iff, List.forall₂_map_left_iff] at hUs
  obtain ⟨ws, hWs, hPerm⟩ := List.perm_comp_forall₂ (keys_perm f h).symm hUs
  have hSame : ∃ vs, List.Forall₂ (fun k v => score (k, ys.filter fun x => f x = k) = .ok v)
      ((groupBy f ys).map Prod.fst) vs ∧ vs.map view = ws.map view := by
    apply exists_views hWs
    intro k hk u hu
    exact hScore k ((h.map f).mem_iff.mpr (((keys_groupBy f ys).2 k).mp hk)) u hu
  obtain ⟨vs, hVs, hViews⟩ := hSame
  refine ⟨vs, ?_, ?_⟩
  · rw [groupBy_eq_map, Raising.mapM_eq_ok_iff, List.forall₂_map_left_iff]
    exact hVs
  · rw [hViews]
    exact hPerm.map view

/-- Where each group's result names its key, the results name distinct keys. -/
theorem keys_of_groups {f : α → κ} {score : κ × List α → Except ε β} {name : β → κ}
    (hName : ∀ k ∈ xs.map f, ∀ u, score (k, xs.filter fun x => f x = k) = .ok u → name u = k) {us : List β}
    (hUs : (groupBy f xs).mapM score = .ok us) : us.map name = (groupBy f xs).map Prod.fst := by
  have hAll : List.Forall₂ (fun group u => score group = .ok u) (groupBy f xs) us := Raising.mapM_eq_ok_iff.mp hUs
  have hEach : ∀ group ∈ groupBy f xs, ∀ u, score group = .ok u → name u = group.1 := by
    rintro ⟨k, group⟩ hMem u hu
    obtain ⟨hk, rfl⟩ := (mem_groupBy_iff f xs k group).mp hMem
    exact hName k hk u hu
  clear hUs
  generalize groupBy f xs = groups at hAll hEach
  induction hAll with
  | nil => rfl
  | cons hHead _ ih =>
    rw [List.map_cons, List.map_cons, hEach _ List.mem_cons_self _ hHead,
      ih fun group hMem => hEach group (List.mem_cons_of_mem _ hMem)]

end Loops

section Sorts

variable {α β κ : Type} [LinearOrder κ]

/-! ## Sorting by a key that may tie -/

/-- `sorted(xs, key=key)`. -/
def sortBy (key : α → κ) (xs : List α) : List α := xs.mergeSort fun x y => decide (key x ≤ key y)

theorem perm_sortBy (key : α → κ) (xs : List α) : (sortBy key xs).Perm xs := List.mergeSort_perm _ _

theorem pairwise_sortBy (key : α → κ) (xs : List α) : (sortBy key xs).Pairwise fun x y => key x ≤ key y := by
  have hTrans : ∀ x y z : α, decide (key x ≤ key y) = true → decide (key y ≤ key z) = true →
      decide (key x ≤ key z) = true := by
    intro x y z hxy hyz
    rw [decide_eq_true_eq] at hxy hyz ⊢
    exact hxy.trans hyz
  have hTotal : ∀ x y : α, (decide (key x ≤ key y) || decide (key y ≤ key x)) = true := by
    intro x y
    rw [Bool.or_eq_true, decide_eq_true_eq, decide_eq_true_eq]
    exact le_total _ _
  exact (List.pairwise_mergeSort hTrans hTotal xs).imp fun h => of_decide_eq_true h

theorem sortBy_of_pairwise {key : α → κ} {xs : List α} (h : xs.Pairwise fun x y => key x ≤ key y) : sortBy key xs = xs :=
  List.mergeSort_of_pairwise (h.imp fun hLe => decide_eq_true hLe)

/-- A view of the elements that decides the key, and that no two have of one key, is sorted in one way. -/
theorem map_sortBy_eq {key : α → κ} {view : α → β} {keyOf : β → κ} (hKey : ∀ x, key x = keyOf (view x)) {xs ys : List α}
    (hPerm : (xs.map view).Perm (ys.map view))
    (hTell : ∀ u ∈ xs.map view, ∀ v ∈ xs.map view, keyOf u = keyOf v → u = v) :
    (sortBy key xs).map view = (sortBy key ys).map view := by
  have hSorted : ∀ zs : List α, ((sortBy key zs).map view).Pairwise fun u v => keyOf u ≤ keyOf v := by
    intro zs
    rw [List.pairwise_map]
    refine (pairwise_sortBy key zs).imp ?_
    intro x y h
    rwa [← hKey, ← hKey]
  have hSame : ((sortBy key xs).map view).Perm ((sortBy key ys).map view) :=
    ((perm_sortBy key xs).map view).trans (hPerm.trans ((perm_sortBy key ys).map view).symm)
  apply List.Perm.eq_of_pairwise _ (hSorted xs) (hSorted ys) hSame
  intro u v hu hv huv hvu
  have hIn : ∀ {w}, w ∈ (sortBy key xs).map view → w ∈ xs.map view := fun hw => ((perm_sortBy key xs).map view).mem_iff.mp hw
  exact hTell u (hIn hu) v (hIn (hSame.mem_iff.mpr hv)) (le_antisymm huv hvu)

/-! ## The first of a sorted list -/

/-- How many elements come before an element in every sorted list. -/
def before (key : α → κ) (xs : List α) (x : α) : Nat := xs.countP fun y => decide (key y < key x)

/-- How many elements come before an element or tie with it. -/
def upTo (key : α → κ) (xs : List α) (x : α) : Nat := xs.countP fun y => decide (key y ≤ key x)

/-- An element is among the first `n` of some sorted list. -/
def Reaches (key : α → κ) (xs : List α) (n : Nat) (x : α) : Prop := before key xs x < n

/-- The elements that tie with this one are not all among the first `n`. -/
def Cut (key : α → κ) (xs : List α) (n : Nat) (x : α) : Prop := n < upTo key xs x

/-- Elements that tie where the first `n` end agree in a property. -/
def CutAgrees (key : α → κ) (p : α → Bool) (xs : List α) (n : Nat) : Prop :=
  ∀ x ∈ xs, ∀ y ∈ xs, key x = key y → Reaches key xs n x → Cut key xs n x → p x = p y

/-- Elements of a property that tie and come before all others of it agree in a value. -/
def FirstAgrees (key : α → κ) (p : α → Bool) (f : α → β) (xs : List α) (n : Nat) : Prop :=
  ∀ x ∈ xs, ∀ y ∈ xs, key x = key y → Reaches key xs n x → p x = true → p y = true →
    (∀ z ∈ xs, key z < key x → p z = false) → f x = f y

variable {key : α → κ} {xs ys sorted sorted' : List α} {n : Nat}

theorem CutAgrees.not {p : α → Bool} (h : CutAgrees key p xs n) : CutAgrees key (fun x => !p x) xs n := by
  intro x hx y hy hTie hReach hCut
  exact congrArg Bool.not (h x hx y hy hTie hReach hCut)

theorem before_perm (h : xs.Perm ys) (x : α) : before key xs x = before key ys x := h.countP_eq _

theorem upTo_perm (h : xs.Perm ys) (x : α) : upTo key xs x = upTo key ys x := h.countP_eq _

theorem reaches_of_mem (hPerm : sorted.Perm xs) (hSorted : sorted.Pairwise fun x y => key x ≤ key y) {x : α}
    (hMem : x ∈ sorted.take n) : Reaches key xs n x := by
  obtain ⟨front, back, hTake⟩ := List.append_of_mem hMem
  have hSplit : sorted = front ++ x :: (back ++ sorted.drop n) := by
    rw [← List.cons_append, ← List.append_assoc, ← hTake, List.take_append_drop]
  have hLength : (sorted.take n).length ≤ n := List.length_take_le n sorted
  rw [hTake, List.length_append, List.length_cons] at hLength
  have hRest : (x :: (back ++ sorted.drop n)).countP (fun y => decide (key y < key x)) = 0 := by
    rw [List.countP_eq_zero]
    intro y hy hLt
    have hLt := of_decide_eq_true hLt
    rcases List.mem_cons.mp hy with rfl | hy
    · exact lt_irrefl _ hLt
    · rw [hSplit, List.pairwise_append, List.pairwise_cons] at hSorted
      exact not_le_of_gt hLt (hSorted.2.1.1 y hy)
  have hFront := List.countP_le_length (p := fun y => decide (key y < key x)) (l := front)
  rw [Reaches, ← before_perm hPerm, before, hSplit, List.countP_append, hRest]
  omega

theorem cut_of_mem (hPerm : sorted.Perm xs) (hSorted : sorted.Pairwise fun x y => key x ≤ key y) {x : α}
    (hMem : x ∈ sorted.drop n) : Cut key xs n x := by
  obtain ⟨front, back, hDrop⟩ := List.append_of_mem hMem
  have hPos : 0 < (sorted.drop n).length := List.length_pos_of_mem hMem
  rw [List.length_drop] at hPos
  have hLength : (sorted.take n).length = n := List.length_take_of_le (by omega)
  have hAll : (sorted.take n).countP (fun y => decide (key y ≤ key x)) = n := by
    refine (List.countP_eq_length.mpr ?_).trans hLength
    intro y hy
    rw [← List.take_append_drop n sorted, List.pairwise_append] at hSorted
    exact decide_eq_true (hSorted.2.2 y hy x hMem)
  have hOwn : 0 < (sorted.drop n).countP fun y => decide (key y ≤ key x) :=
    List.countP_pos_iff.mpr ⟨x, hMem, decide_eq_true le_rfl⟩
  rw [Cut, ← upTo_perm hPerm, upTo, ← List.take_append_drop n sorted, List.countP_append, hAll]
  omega

/-- Of two elements that both reach the first ones, cut where they tie, both tie. -/
theorem tie_of_cut {x y : α} (hx : Reaches key xs n x) (hy : Reaches key xs n y) (hxCut : Cut key xs n x)
    (hyCut : Cut key xs n y) : key x = key y := by
  have hNot : ∀ {x y : α}, Reaches key xs n y → Cut key xs n x → ¬ key x < key y := by
    intro x y hy hx hLt
    have hLe : upTo key xs x ≤ before key xs y := by
      apply List.countP_mono_left
      intro z _ hz
      exact decide_eq_true (lt_of_le_of_lt (of_decide_eq_true hz) hLt)
    rw [Reaches] at hy
    rw [Cut] at hx
    omega
  exact le_antisymm (not_lt.mp (hNot hx hyCut)) (not_lt.mp (hNot hy hxCut))

theorem countP_of_agree {p : α → Bool} {us vs : List α} (hLength : us.length = vs.length)
    (h : ∀ x ∈ us ++ vs, ∀ y ∈ us ++ vs, p x = p y) : us.countP p = vs.countP p := by
  cases us with
  | nil => rw [List.length_eq_zero_iff.mp hLength.symm]
  | cons u us =>
    cases hu : p u with
    | true =>
      have hAll : ∀ x ∈ (u :: us) ++ vs, p x = true := fun x hx => (h x hx u (by simp)).trans hu
      rw [List.countP_eq_length.mpr fun x hx => hAll x (List.mem_append_left _ hx), hLength,
        List.countP_eq_length.mpr fun x hx => hAll x (List.mem_append_right _ hx)]
    | false =>
      have hNone : ∀ x ∈ (u :: us) ++ vs, ¬ p x = true := by
        intro x hx
        rw [h x hx u (by simp), hu]
        exact Bool.false_ne_true
      rw [List.countP_eq_zero.mpr fun x hx => hNone x (List.mem_append_left _ hx),
        List.countP_eq_zero.mpr fun x hx => hNone x (List.mem_append_right _ hx)]

/-- How many of the first `n` have a property does not depend on the sorted list. -/
theorem countP_take_eq {p : α → Bool} (hPerm : sorted.Perm xs) (hPerm' : sorted'.Perm xs)
    (hSorted : sorted.Pairwise fun x y => key x ≤ key y) (hSorted' : sorted'.Pairwise fun x y => key x ≤ key y)
    (hCut : CutAgrees key p xs n) : (sorted.take n).countP p = (sorted'.take n).countP p := by
  have hInside : ∀ {s : List α}, s.Perm xs → s.Pairwise (fun x y => key x ≤ key y) →
      (s.take n).filter (fun x => decide (upTo key xs x ≤ n)) = s.filter fun x => decide (upTo key xs x ≤ n) := by
    intro s hPerm hSorted
    have hLate : (s.drop n).filter (fun x => decide (upTo key xs x ≤ n)) = [] := by
      rw [List.filter_eq_nil_iff]
      intro x hx hIn
      exact not_le_of_gt (cut_of_mem hPerm hSorted hx) (of_decide_eq_true hIn)
    conv_rhs => rw [← List.take_append_drop n s, List.filter_append, hLate, List.append_nil]
  have hSame : ((sorted.take n).filter fun x => decide (upTo key xs x ≤ n)).Perm
      ((sorted'.take n).filter fun x => decide (upTo key xs x ≤ n)) := by
    rw [hInside hPerm hSorted, hInside hPerm' hSorted']
    exact (hPerm.trans hPerm'.symm).filter _
  have hTotal : (sorted.take n).length = (sorted'.take n).length := by
    rw [List.length_take, List.length_take, hPerm.length_eq, hPerm'.length_eq]
  have hSplit : ∀ s : List α, (s.filter fun x => decide (upTo key xs x ≤ n)).length +
      (s.filter fun x => !decide (upTo key xs x ≤ n)).length = s.length := by
    intro s
    rw [← List.countP_eq_length_filter, ← List.countP_eq_length_filter]
    simp only [List.length_eq_countP_add_countP (fun x => decide (upTo key xs x ≤ n)) (l := s), Bool.not_eq_true,
      Bool.decide_eq_false]
  have hMore : ((sorted.take n).filter fun x => !decide (upTo key xs x ≤ n)).length =
      ((sorted'.take n).filter fun x => !decide (upTo key xs x ≤ n)).length := by
    have h := hSplit (sorted.take n)
    have h' := hSplit (sorted'.take n)
    have hLength := hSame.length_eq
    omega
  rw [List.countP_eq_countP_filter_add (sorted.take n) p fun x => decide (upTo key xs x ≤ n),
    List.countP_eq_countP_filter_add (sorted'.take n) p fun x => decide (upTo key xs x ≤ n), hSame.countP_eq]
  congr 1
  apply countP_of_agree hMore
  have hKept : ∀ {s : List α}, s.Perm xs → s.Pairwise (fun x y => key x ≤ key y) →
      ∀ x ∈ (s.take n).filter (fun x => !decide (upTo key xs x ≤ n)), x ∈ xs ∧ Reaches key xs n x ∧ Cut key xs n x := by
    intro s hPerm hSorted x hx
    obtain ⟨hTake, hOut⟩ := List.mem_filter.mp hx
    rw [Bool.not_eq_true', decide_eq_false_iff_not] at hOut
    exact ⟨hPerm.mem_iff.mp (List.mem_of_mem_take hTake), reaches_of_mem hPerm hSorted hTake, lt_of_not_ge hOut⟩
  have hBoth : ∀ x ∈ (sorted.take n).filter (fun x => !decide (upTo key xs x ≤ n)) ++
      (sorted'.take n).filter (fun x => !decide (upTo key xs x ≤ n)), x ∈ xs ∧ Reaches key xs n x ∧ Cut key xs n x := by
    intro x hx
    rcases List.mem_append.mp hx with hx | hx
    · exact hKept hPerm hSorted x hx
    · exact hKept hPerm' hSorted' x hx
  intro x hx y hy
  obtain ⟨hxMem, hxReach, hxCut⟩ := hBoth x hx
  obtain ⟨hyMem, hyReach, hyCut⟩ := hBoth y hy
  exact hCut x hxMem y hyMem (tie_of_cut hxReach hyReach hxCut hyCut) hxReach hxCut

theorem first_of_find {p : α → Bool} (hPerm : sorted.Perm xs) (hSorted : sorted.Pairwise fun x y => key x ≤ key y) {x : α}
    (hFind : (sorted.take n).find? p = some x) :
    x ∈ xs ∧ Reaches key xs n x ∧ p x = true ∧ ∀ z ∈ xs, key z < key x → p z = false := by
  obtain ⟨hx, front, back, hTake, hFront⟩ := List.find?_eq_some_iff_append.mp hFind
  have hMem : x ∈ sorted.take n := List.mem_of_find?_eq_some hFind
  refine ⟨hPerm.mem_iff.mp (List.mem_of_mem_take hMem), reaches_of_mem hPerm hSorted hMem, hx, ?_⟩
  intro z hz hLt
  have hSplit : sorted = front ++ x :: (back ++ sorted.drop n) := by
    rw [← List.cons_append, ← List.append_assoc, ← hTake, List.take_append_drop]
  have hz := hPerm.mem_iff.mpr hz
  rw [hSplit] at hz hSorted
  rw [List.pairwise_append, List.pairwise_cons] at hSorted
  rcases List.mem_append.mp hz with hz | hz
  · exact Bool.not_eq_true' _ ▸ hFront z hz
  · rcases List.mem_cons.mp hz with rfl | hz
    · exact absurd hLt (lt_irrefl _)
    · exact absurd hLt (not_lt.mpr (hSorted.2.1.1 z hz))

/-- The first of a property among the first `n` is one of one value in every sorted list. -/
theorem find_take_eq {p : α → Bool} {f : α → β} (hPerm : sorted.Perm xs) (hPerm' : sorted'.Perm xs)
    (hSorted : sorted.Pairwise fun x y => key x ≤ key y) (hSorted' : sorted'.Pairwise fun x y => key x ≤ key y)
    (hCut : CutAgrees key p xs n) (hFirst : FirstAgrees key p f xs n) :
    ((sorted.take n).find? p).map f = ((sorted'.take n).find? p).map f := by
  have hCount := countP_take_eq hPerm hPerm' hSorted hSorted' hCut
  have hNone : ∀ {s : List α}, s.find? p = none ↔ s.countP p = 0 := by
    intro s
    rw [List.find?_eq_none, List.countP_eq_zero]
  cases hFind : (sorted.take n).find? p with
  | none =>
    rw [hNone, hCount, ← hNone] at hFind
    rw [hFind]
  | some x =>
    cases hFind' : (sorted'.take n).find? p with
    | none =>
      rw [hNone, ← hCount, ← hNone, hFind] at hFind'
      cases hFind'
    | some y =>
      obtain ⟨hxMem, hxReach, hx, hxFirst⟩ := first_of_find hPerm hSorted hFind
      obtain ⟨hyMem, -, hy, hyFirst⟩ := first_of_find hPerm' hSorted' hFind'
      have hTie : key x = key y := by
        rcases lt_trichotomy (key x) (key y) with hLt | hEq | hGt
        · rw [hyFirst x hxMem hLt] at hx
          cases hx
        · exact hEq
        · rw [hxFirst y hyMem hGt] at hy
          cases hy
      rw [Option.map_some, Option.map_some, hFirst x hxMem y hyMem hTie hxReach hx hy hxFirst]

end Sorts

end Bajutsu.InputOrder
