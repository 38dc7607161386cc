import Bajutsu.Lib.PyValue
import Mathlib.Data.Finset.Card

/-!
# Tables ordered by recency

An ordered dictionary whose oldest entries give way once it grows past its capacity. An entry that was moved to the
end stays for as long as fewer other keys than the capacity were moved there after it.
-/

namespace Bajutsu.Recency

open PyValue

variable {κ β : Type}

/-- What is left after popping the oldest entries past the capacity. -/
def trim (capacity : Nat) (d : List (κ × β)) : List (κ × β) := d.drop (d.length - capacity)

/-- The key has this value, and only the keys of the set were moved to the end after it. -/
structure Behind (d : List (κ × β)) (k : κ) (b : β) (later : Finset κ) : Prop where
  distinct : (d.map Prod.fst).Nodup
  split : ∃ front back, d = front ++ (k, b) :: back ∧ ∀ item ∈ back, item.1 ∈ later

theorem nodup_trim {d : List (κ × β)} (h : (d.map Prod.fst).Nodup) (capacity : Nat) :
    ((trim capacity d).map Prod.fst).Nodup := h.sublist ((List.drop_sublist _ _).map Prod.fst)

theorem mem_trim {d : List (κ × β)} {capacity : Nat} {i : κ} (h : i ∈ (trim capacity d).map Prod.fst) :
    i ∈ d.map Prod.fst := ((List.drop_sublist _ _).map Prod.fst).subset h

namespace Behind

variable {d : List (κ × β)} {k : κ} {b : β} {later : Finset κ}

theorem mono {more : Finset κ} (h : Behind d k b later) (hMore : later ⊆ more) : Behind d k b more := by
  obtain ⟨front, back, hSplit, hBack⟩ := h.split
  exact ⟨h.distinct, front, back, hSplit, fun item hMem => hMore (hBack item hMem)⟩

theorem mem_keys (h : Behind d k b later) : k ∈ d.map Prod.fst := by
  obtain ⟨front, back, rfl, -⟩ := h.split
  simp

end Behind

variable [DecidableEq κ]

/-- Assigning a key and moving it to the end. -/
def touch (d : List (κ × β)) (k : κ) (b : β) : List (κ × β) := pop d k ++ [(k, b)]

theorem nodup_pop {d : List (κ × β)} (h : (d.map Prod.fst).Nodup) (k : κ) : ((pop d k).map Prod.fst).Nodup :=
  h.sublist (List.filter_sublist.map Prod.fst)

theorem mem_keys_pop {d : List (κ × β)} {k i : κ} : i ∈ (pop d k).map Prod.fst ↔ i ∈ d.map Prod.fst ∧ i ≠ k := by
  simp only [pop, List.mem_map, List.mem_filter, decide_eq_true_eq]
  constructor
  · rintro ⟨item, ⟨hMem, hOther⟩, rfl⟩
    exact ⟨⟨item, hMem, rfl⟩, hOther⟩
  · rintro ⟨⟨item, hMem, rfl⟩, hOther⟩
    exact ⟨item, ⟨hMem, hOther⟩, rfl⟩

theorem mem_keys_touch {d : List (κ × β)} {k i : κ} {b : β} :
    i ∈ (touch d k b).map Prod.fst ↔ i = k ∨ i ∈ d.map Prod.fst := by
  rw [touch, List.map_append, List.mem_append, mem_keys_pop, List.map_singleton, List.mem_singleton]
  tauto

theorem nodup_touch {d : List (κ × β)} (h : (d.map Prod.fst).Nodup) (k : κ) (b : β) :
    ((touch d k b).map Prod.fst).Nodup := by
  rw [touch, List.map_append, List.map_singleton]
  apply List.Nodup.append (nodup_pop h k) (List.nodup_singleton k)
  rw [List.disjoint_singleton, mem_keys_pop]
  exact fun hMem => hMem.2 rfl

namespace Behind

variable {d : List (κ × β)} {k : κ} {b : β} {later : Finset κ}

theorem touched (h : (d.map Prod.fst).Nodup) (k : κ) (b : β) : Behind (touch d k b) k b ∅ :=
  ⟨nodup_touch h k b, pop d k, [], rfl, fun _ hMem => nomatch hMem⟩

theorem pop_other (h : Behind d k b later) {i : κ} (hOther : i ≠ k) : Behind (pop d i) k b later := by
  obtain ⟨front, back, rfl, hBack⟩ := h.split
  refine ⟨nodup_pop h.distinct i, pop front i, pop back i, ?_, fun item hMem => hBack item (List.mem_of_mem_filter hMem)⟩
  rw [pop, List.filter_append, List.filter_cons_of_pos (by simpa using hOther.symm)]
  rfl

theorem touch_other (h : Behind d k b later) {i : κ} (hOther : i ≠ k) (c : β) :
    Behind (touch d i c) k b (insert i later) := by
  obtain ⟨front, back, hSplit, hBack⟩ := (h.pop_other hOther).split
  refine ⟨nodup_touch h.distinct i c, front, back ++ [(i, c)], ?_, ?_⟩
  · rw [touch, hSplit]
    simp
  · intro item hMem
    obtain hMem | hMem := List.mem_append.mp hMem
    · exact Finset.mem_insert_of_mem (hBack item hMem)
    · rw [List.mem_singleton.mp hMem]
      exact Finset.mem_insert_self i later

theorem trim (h : Behind d k b later) {capacity : Nat} (hFew : later.card < capacity) :
    Behind (trim capacity d) k b later := by
  obtain ⟨front, back, rfl, hBack⟩ := h.split
  have hDistinct : (back.map Prod.fst).Nodup := by
    have hAll := h.distinct
    rw [List.map_append, List.map_cons] at hAll
    exact (List.nodup_cons.mp hAll.of_append_right).2
  have hLength : back.length ≤ later.card := by
    rw [← @List.length_map _ _ back Prod.fst, ← List.toFinset_card_of_nodup hDistinct]
    apply Finset.card_le_card
    intro i hMem
    obtain ⟨item, hItem, rfl⟩ := List.mem_map.mp (List.mem_toFinset.mp hMem)
    exact hBack item hItem
  refine ⟨nodup_trim h.distinct capacity, front.drop ((front ++ (k, b) :: back).length - capacity), back, ?_, hBack⟩
  rw [Recency.trim, List.drop_append_of_le_length]
  rw [List.length_append, List.length_cons]
  omega

theorem get (h : Behind d k b later) : get d k = some b := by
  obtain ⟨front, back, rfl, -⟩ := h.split
  exact get_of_mem h.distinct (by simp)

end Behind

end Bajutsu.Recency
