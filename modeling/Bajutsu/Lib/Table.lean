import Mathlib.Data.List.Nodup

/-!
# Tables with a primary key

The statements of a database on one table: an insert that the key may reject, a conditional update that
counts the rows it wrote, and a conditional delete.
-/

namespace Bajutsu.Table

variable {α κ : Type} [DecidableEq κ] (key : α → κ)

/-- No two rows have one key. -/
def Keyed (rows : List α) : Prop := (rows.map key).Nodup

def find (rows : List α) (k : κ) : Option α := rows.find? fun row => key row = k

def insert (row : α) (rows : List α) : List α × Bool :=
  if (find key rows (key row)).isSome then (rows, false) else (rows ++ [row], true)

def update (holds : α → Bool) (assign : α → α) (rows : List α) : List α × Nat :=
  (rows.map fun row => if holds row then assign row else row, rows.countP holds)

def delete (holds : α → Bool) (rows : List α) : List α := rows.filter fun row => !holds row

/-- The conditional update of the row with one key. -/
def updateOne (k : κ) (holds : α → Bool) (assign : α → α) (rows : List α) : List α × Nat :=
  update (fun row => key row = k && holds row) assign rows

variable {key}

theorem find_key {rows : List α} {k : κ} {row : α} (h : find key rows k = some row) : key row = k := by
  simpa using List.find?_some h

theorem find_eq_none_iff {rows : List α} {k : κ} : find key rows k = none ↔ k ∉ rows.map key := by
  simp [find]

/-! ## Insert -/

theorem insert_cases (row : α) (rows : List α) :
    (insert key row rows = (rows, false) ∧ (find key rows (key row)).isSome) ∨
      (insert key row rows = (rows ++ [row], true) ∧ find key rows (key row) = none) := by
  rw [insert]
  split
  · rename_i hTaken
    exact .inl ⟨rfl, hTaken⟩
  · rename_i hFree
    exact .inr ⟨rfl, Option.not_isSome_iff_eq_none.mp hFree⟩

theorem keyed_insert {rows : List α} (h : Keyed key rows) (row : α) : Keyed key (insert key row rows).1 := by
  rcases @insert_cases _ _ _ key row rows with ⟨hInsert, -⟩ | ⟨hInsert, hFree⟩
  · rw [hInsert]
    exact h
  · rw [hInsert, Keyed, List.map_append]
    refine List.Nodup.append h (List.nodup_singleton _) ?_
    rw [List.map_singleton, List.disjoint_singleton]
    exact find_eq_none_iff.mp hFree

theorem find_append_single (rows : List α) (row : α) (k : κ) :
    find key (rows ++ [row]) k = (find key rows k).or (if key row = k then some row else none) := by
  rw [find, List.find?_append]
  congr 1
  by_cases hk : key row = k <;> simp [hk]

/-! ## Update -/

variable {holds : α → Bool} {assign : α → α}

omit [DecidableEq κ] in
theorem keyed_update {rows : List α} (h : Keyed key rows) (hAssign : ∀ row, key (assign row) = key row) :
    Keyed key (update holds assign rows).1 := by
  have hKeys : (update holds assign rows).1.map key = rows.map key := by
    rw [update, List.map_map]
    apply List.map_congr_left
    intro row _
    simp only [Function.comp_apply]
    split
    · exact hAssign row
    · rfl
  rw [Keyed, hKeys]
  exact h

theorem find_update {rows : List α} (hAssign : ∀ row, key (assign row) = key row) (k : κ) :
    find key (update holds assign rows).1 k =
      (find key rows k).map fun row => if holds row then assign row else row := by
  have hKey : ∀ row, key (if holds row then assign row else row) = key row := by
    intro row
    split
    · exact hAssign row
    · rfl
  rw [update, find, List.find?_map]
  congr 1
  simp only [find, Function.comp_def, hKey]

/-- An update of the rows with one key writes that row or none. -/
theorem count_update {rows : List α} (hKeyed : Keyed key rows) {k : κ} (hHolds : ∀ row, holds row → key row = k) :
    (update holds assign rows).2 = if (find key rows k).any holds then 1 else 0 := by
  rw [update]
  induction rows with
  | nil => rfl
  | cons first rows ih =>
    obtain ⟨hFirst, hRest⟩ := List.nodup_cons.mp hKeyed
    have hTail := ih hRest
    by_cases hk : key first = k
    · have hNone : rows.countP holds = 0 := by
        rw [List.countP_eq_zero]
        intro row hMem hHold
        exact hFirst (hk ▸ hHolds row hHold ▸ List.mem_map_of_mem hMem)
      have hFind : find key (first :: rows) k = some first := List.find?_cons_of_pos (by simpa using hk)
      rw [hFind, List.countP_cons, hNone, Nat.zero_add, Option.any_some]
    · have hOther : ¬holds first := fun hHold => hk (hHolds first hHold)
      have hFind : find key (first :: rows) k = find key rows k :=
        List.find?_cons_of_neg (by simpa using hk)
      rw [hFind, List.countP_cons_of_neg hOther]
      exact hTail

theorem updateOne_cases {rows : List α} (hKeyed : Keyed key rows)
    (hAssign : ∀ row, key (assign row) = key row) (k : κ) :
    (∃ row, find key rows k = some row ∧ holds row = true ∧
        find key (updateOne key k holds assign rows).1 k = some (assign row) ∧
        (updateOne key k holds assign rows).2 = 1) ∨
      (∀ row, find key rows k = some row → holds row = false) ∧
        find key (updateOne key k holds assign rows).1 k = find key rows k ∧
        (updateOne key k holds assign rows).2 = 0 := by
  have hFind := @find_update _ _ _ key (fun row => key row = k && holds row) assign rows hAssign k
  have hCount := @count_update _ _ _ key (fun row => key row = k && holds row) assign rows hKeyed k
    fun row hRow => of_decide_eq_true (Bool.and_eq_true_iff.mp hRow).1
  rw [updateOne, hFind, hCount]
  cases hRow : find key rows k with
  | none => exact .inr ⟨(fun row h => nomatch h), rfl, rfl⟩
  | some row =>
    have hKey : key row = k := find_key hRow
    cases hHolds : holds row with
    | false =>
      refine .inr ⟨fun other h => ?_, ?_, ?_⟩
      · obtain rfl := Option.some.inj h
        exact hHolds
      · simp [hHolds]
      · simp [hHolds]
    | true => exact .inl ⟨row, rfl, hHolds, by simp [hKey, hHolds], by simp [hKey, hHolds]⟩

theorem find_updateOne_ne (hAssign : ∀ row, key (assign row) = key row) {k j : κ} (hj : j ≠ k)
    (rows : List α) : find key (updateOne key k holds assign rows).1 j = find key rows j := by
  rw [updateOne, find_update hAssign]
  cases hRow : find key rows j with
  | none => rfl
  | some row =>
    have hKey : key row ≠ k := fun hEq => hj ((find_key hRow).symm.trans hEq)
    simp [hKey]

/-! ## Delete -/

theorem find_delete {rows : List α} {k : κ} {row : α} (h : find key rows k = some row)
    (hKept : holds row = false) : find key (delete holds rows) k = some row := by
  induction rows with
  | nil => cases h
  | cons first rows ih =>
    by_cases hk : key first = k
    · have hFirst : find key (first :: rows) k = some first := List.find?_cons_of_pos (by simpa using hk)
      obtain rfl := Option.some.inj (hFirst.symm.trans h)
      rw [delete, List.filter_cons_of_pos (by simpa using hKept)]
      exact List.find?_cons_of_pos (by simpa using hk)
    · have hRest : find key (first :: rows) k = find key rows k :=
        List.find?_cons_of_neg (by simpa using hk)
      have hTail := ih (hRest.symm.trans h)
      rw [delete, List.filter_cons]
      split
      · rw [find, List.find?_cons_of_neg (by simpa using hk)]
        exact hTail
      · exact hTail

end Bajutsu.Table
