import Mathlib.Data.List.Basic

/-!
# Values collected under keys

The rows of a dictionary of sets, in the order their keys were first used.
-/

namespace Bajutsu.Multimap

variable {κ α : Type*} [DecidableEq κ] [DecidableEq α]

/-- `rows.setdefault(key, set()).add(value)`. -/
def add (key : κ) (value : α) : List (κ × List α) → List (κ × List α)
  | [] => [(key, [value])]
  | (k, values) :: rows =>
    if k = key then (k, if value ∈ values then values else values ++ [value]) :: rows else (k, values) :: add key value rows

def ofPairs (pairs : List (κ × α)) : List (κ × List α) := pairs.foldl (fun rows pair => add pair.1 pair.2 rows) []

/-- A value stands under a key. -/
def Holds (rows : List (κ × List α)) (key : κ) (value : α) : Prop := ∃ values, (key, values) ∈ rows ∧ value ∈ values

omit [DecidableEq κ] [DecidableEq α] in
theorem holds_cons {k key : κ} {values : List α} {value : α} {rows : List (κ × List α)} :
    Holds ((k, values) :: rows) key value ↔ (key = k ∧ value ∈ values) ∨ Holds rows key value := by
  constructor
  · rintro ⟨found, hMem, hValue⟩
    obtain hPair | hMem := List.mem_cons.mp hMem
    · cases hPair
      exact .inl ⟨rfl, hValue⟩
    · exact .inr ⟨found, hMem, hValue⟩
  · rintro (⟨rfl, hValue⟩ | ⟨found, hMem, hValue⟩)
    · exact ⟨values, List.mem_cons_self, hValue⟩
    · exact ⟨found, List.mem_cons_of_mem _ hMem, hValue⟩

theorem holds_add {rows : List (κ × List α)} {k key : κ} {a value : α} :
    Holds (add k a rows) key value ↔ (key = k ∧ value = a) ∨ Holds rows key value := by
  induction rows with
  | nil => simp [add, Holds]
  | cons row rows ih =>
    obtain ⟨k', values⟩ := row
    rw [add]
    split
    · rename_i hKey
      subst hKey
      rw [holds_cons, holds_cons]
      split <;> grind
    · rw [holds_cons, holds_cons, ih]
      grind

theorem holds_ofPairs {pairs : List (κ × α)} {key : κ} {value : α} :
    Holds (ofPairs pairs) key value ↔ (key, value) ∈ pairs := by
  have hFold (rows : List (κ × List α)) :
      Holds (pairs.foldl (fun rows pair => add pair.1 pair.2 rows) rows) key value ↔
        (key, value) ∈ pairs ∨ Holds rows key value := by
    induction pairs generalizing rows with
    | nil => simp
    | cons pair pairs ih =>
      rw [List.foldl_cons, ih, holds_add, List.mem_cons, Prod.ext_iff]
      grind
  rw [ofPairs, hFold]
  simp [Holds]

theorem add_ne_nil {rows : List (κ × List α)} (h : ∀ row ∈ rows, row.2 ≠ []) (key : κ) (value : α) :
    ∀ row ∈ add key value rows, row.2 ≠ [] := by
  induction rows with
  | nil => simp [add]
  | cons row rows ih =>
    obtain ⟨hRow, hRows⟩ := List.forall_mem_cons.mp h
    rw [add]
    split
    · refine List.forall_mem_cons.mpr ⟨?_, hRows⟩
      dsimp only
      split
      · exact hRow
      · exact List.append_ne_nil_of_right_ne_nil _ (List.cons_ne_nil _ _)
    · exact List.forall_mem_cons.mpr ⟨hRow, ih hRows⟩

theorem ofPairs_ne_nil (pairs : List (κ × α)) : ∀ row ∈ ofPairs pairs, row.2 ≠ [] := by
  have hFold (rows : List (κ × List α)) (h : ∀ row ∈ rows, row.2 ≠ []) :
      ∀ row ∈ pairs.foldl (fun rows pair => add pair.1 pair.2 rows) rows, row.2 ≠ [] := by
    induction pairs generalizing rows with
    | nil => exact h
    | cons pair pairs ih => exact ih _ (add_ne_nil h pair.1 pair.2)
  exact hFold [] (List.forall_mem_nil _)

/-- The keys that are kept are those that were given a value. -/
theorem mem_keys_ofPairs {pairs : List (κ × α)} {key : κ} :
    (∃ values, (key, values) ∈ ofPairs pairs) ↔ ∃ value, (key, value) ∈ pairs := by
  constructor
  · rintro ⟨values, hMem⟩
    obtain ⟨value, hValue⟩ := List.exists_mem_of_ne_nil values (ofPairs_ne_nil pairs _ hMem)
    exact ⟨value, holds_ofPairs.mp ⟨values, hMem, hValue⟩⟩
  · rintro ⟨value, hMem⟩
    obtain ⟨values, hRow, -⟩ := holds_ofPairs.mpr hMem
    exact ⟨values, hRow⟩

end Bajutsu.Multimap
