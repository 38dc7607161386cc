import Mathlib.Data.Finset.Card
import Mathlib.Data.Fintype.Basic
import Mathlib.Data.List.NodupEquivFin
import Mathlib.Logic.Equiv.Fin.Basic
import Mathlib.Order.Fin.Basic

/-!
# Largest assignments

An assignment gives some of the values of one type each a value of another, which is its neighbour, and none twice.
One that is largest among the first values stays so with one more value where its search for a place gets stuck, and
where it grows by one.
-/

namespace Bajutsu.Assignment

variable {α β : Type*} [Fintype α] (neighbour : α → β → Prop)

structure OneToOne (g : α → Option β) : Prop where
  edge : ∀ {a b}, g a = some b → neighbour a b
  distinct : ∀ {a a' b}, g a = some b → g a' = some b → a = a'

def matched (g : α → Option β) : Finset α := Finset.univ.filter fun a => (g a).isSome

/-- No other assignment of the same values has more of them. -/
structure Largest (values : Finset α) (g : α → Option β) : Prop where
  oneToOne : OneToOne neighbour g
  within : matched g ⊆ values
  largest : ∀ g', OneToOne neighbour g' → matched g' ⊆ values → (matched g').card ≤ (matched g).card

variable {neighbour}

@[simp] theorem mem_matched {g : α → Option β} {a : α} : a ∈ matched g ↔ (g a).isSome := by simp [matched]

theorem largest_none : Largest neighbour ∅ fun _ : α => none where
  oneToOne := ⟨nofun, nofun⟩
  within a h := by simp at h
  largest g' _ hWithin := by simp [Finset.subset_empty.mp hWithin]

/-- With one more value, an assignment of one more is largest. -/
theorem Largest.grown [DecidableEq α] {values : Finset α} {a : α} {g g' : α → Option β} (h : Largest neighbour values g)
    (hOne : OneToOne neighbour g') (hMatched : matched g' = insert a (matched g)) (hNew : a ∉ matched g) :
    Largest neighbour (insert a values) g' := by
  refine ⟨hOne, hMatched ▸ Finset.insert_subset_insert a h.within, fun other hOther hWithin => ?_⟩
  -- Without the new value, the other assignment is one of the old values.
  have hRest : OneToOne neighbour (Function.update other a none) := by
    constructor
    · intro x b hIs
      by_cases hx : x = a
      · simp [hx] at hIs
      · exact hOther.edge (by rwa [Function.update_of_ne hx] at hIs)
    · intro x y b hx hy
      by_cases hxa : x = a
      · simp [hxa] at hx
      · by_cases hya : y = a
        · simp [hya] at hy
        · rw [Function.update_of_ne hxa] at hx
          rw [Function.update_of_ne hya] at hy
          exact hOther.distinct hx hy
  have hErase : matched (Function.update other a none) = (matched other).erase a := by
    ext x
    by_cases hx : x = a <;> simp [hx]
  have hLess := h.largest _ hRest (hErase ▸ Finset.subset_insert_iff.mp hWithin)
  rw [hErase] at hLess
  rw [hMatched, Finset.card_insert_of_notMem hNew]
  have hErased := Finset.pred_card_le_card_erase (s := matched other) (a := a)
  omega

/-! ## Getting stuck -/

section Stuck

variable [DecidableEq β]

/-- The values that are assigned one of these. -/
def heldIn (places : Finset β) (g : α → Option β) : Finset α := Finset.univ.filter fun a => (g a).any (· ∈ places)

theorem mem_heldIn {places : Finset β} {g : α → Option β} {a : α} : a ∈ heldIn places g ↔ ∃ b ∈ places, g a = some b := by
  simp only [heldIn, Finset.mem_filter_univ, Option.any_eq_true, decide_eq_true_eq]
  exact ⟨fun ⟨b, hIs, hMem⟩ => ⟨b, hMem, hIs⟩, fun ⟨b, hMem, hIs⟩ => ⟨b, hIs, hMem⟩⟩

theorem heldIn_subset {places : Finset β} {g : α → Option β} : heldIn places g ⊆ matched g := by
  intro a h
  obtain ⟨b, -, hIs⟩ := mem_heldIn.mp h
  simp [hIs]

/-- An assignment has no more values in some places than there are places. -/
theorem card_heldIn_le {places : Finset β} {g : α → Option β} (h : OneToOne neighbour g) :
    (heldIn places g).card ≤ places.card := by
  have hInto : Set.MapsTo g (heldIn places g) (places.image some) := by
    intro a hMem
    obtain ⟨b, hPlace, hIs⟩ := mem_heldIn.mp hMem
    simpa [hIs] using hPlace
  have hInj : Set.InjOn g (heldIn places g) := by
    intro a hMem a' _ hEq
    obtain ⟨b, -, hIs⟩ := mem_heldIn.mp hMem
    exact h.distinct hIs (hEq ▸ hIs)
  rw [← Finset.card_image_of_injective places (Option.some_injective β)]
  exact Finset.card_le_card_of_injOn g hInto hInj

theorem card_le_heldIn {places : Finset β} {g : α → Option β} (h : ∀ b ∈ places, ∃ a, g a = some b) :
    places.card ≤ (heldIn places g).card := by
  rw [← Finset.card_image_of_injective places (Option.some_injective β)]
  refine le_trans (Finset.card_le_card ?_) (Finset.card_image_le (s := heldIn places g) (f := g))
  intro place hMem
  obtain ⟨b, hPlace, rfl⟩ := Finset.mem_image.mp hMem
  obtain ⟨a, hIs⟩ := h b hPlace
  exact Finset.mem_image.mpr ⟨a, mem_heldIn.mpr ⟨b, hPlace, hIs⟩, hIs⟩

variable [DecidableEq α]

/-- The places of one assignment, and another elsewhere. -/
def mix (places : Finset β) (g g' : α → Option β) (a : α) : Option β :=
  if a ∈ heldIn places g then g a else if a ∈ heldIn places g' then none else g' a

/-- All neighbours of a value are in places that are taken by values whose neighbours are too: with one more value the
assignment is still largest. -/
theorem Largest.stuck {values : Finset α} {a : α} {g : α → Option β} {places : Finset β}
    (h : Largest neighbour values g) (hNew : ∀ b, neighbour a b → b ∈ places)
    (hTaken : ∀ b ∈ places, ∃ holder, g holder = some b ∧ ∀ b', neighbour holder b' → b' ∈ places) :
    Largest neighbour (insert a values) g := by
  refine ⟨h.oneToOne, h.within.trans (Finset.subset_insert a values), fun g' hOther hWithin => ?_⟩
  have hInside {x : α} (hHeld : x ∈ heldIn places g) {b : β} (hIs : g' x = some b) : b ∈ places := by
    obtain ⟨c, hPlace, hc⟩ := mem_heldIn.mp hHeld
    obtain ⟨holder, hHolder, hAll⟩ := hTaken c hPlace
    obtain rfl := h.oneToOne.distinct hc hHolder
    exact hAll b (hOther.edge hIs)
  have hMix {x : α} {b : β} (hIs : mix places g g' x = some b) :
      (g x = some b ∧ b ∈ places) ∨ (g' x = some b ∧ b ∉ places) := by
    rw [mix] at hIs
    split_ifs at hIs with hHeld hOut
    · obtain ⟨c, hPlace, hc⟩ := mem_heldIn.mp hHeld
      cases hIs.symm.trans hc
      exact .inl ⟨hIs, hPlace⟩
    · exact .inr ⟨hIs, fun hPlace => hOut (mem_heldIn.mpr ⟨b, hPlace, hIs⟩)⟩
  have hOne : OneToOne neighbour (mix places g g') := by
    constructor
    · intro x b hIs
      obtain ⟨hIs, -⟩ | ⟨hIs, -⟩ := hMix hIs
      · exact h.oneToOne.edge hIs
      · exact hOther.edge hIs
    · intro x y b hx hy
      obtain ⟨hx, hIn⟩ | ⟨hx, hOut⟩ := hMix hx <;> obtain ⟨hy, hIn'⟩ | ⟨hy, hOut'⟩ := hMix hy
      · exact h.oneToOne.distinct hx hy
      · exact absurd hIn hOut'
      · exact absurd hIn' hOut
      · exact hOther.distinct hx hy
  have hMatched : matched (mix places g g') = heldIn places g ∪ (matched g' \ heldIn places g') := by
    ext x
    rw [Finset.mem_union, Finset.mem_sdiff, mem_matched, mem_matched, mix]
    split_ifs with hHeld hOut
    · exact iff_of_true (mem_matched.mp (heldIn_subset hHeld)) (.inl hHeld)
    · exact iff_of_false nofun fun hIs => hIs.elim hHeld fun hIs => hIs.right hOut
    · exact ⟨fun hIs => .inr ⟨hIs, hOut⟩, fun hIs => hIs.elim (absurd · hHeld) And.left⟩
  have hDisjoint : Disjoint (heldIn places g) (matched g' \ heldIn places g') := by
    rw [Finset.disjoint_left]
    intro x hHeld hElse
    rw [Finset.mem_sdiff, mem_matched] at hElse
    obtain ⟨b, hIs⟩ := Option.isSome_iff_exists.mp hElse.left
    exact hElse.right (mem_heldIn.mpr ⟨b, hInside hHeld hIs, hIs⟩)
  have hAmong : matched (mix places g g') ⊆ values := by
    rw [hMatched]
    refine Finset.union_subset (heldIn_subset.trans h.within) fun x hx => ?_
    rw [Finset.mem_sdiff, mem_matched] at hx
    refine (Finset.mem_insert.mp (hWithin (mem_matched.mpr hx.left))).resolve_left ?_
    rintro rfl
    obtain ⟨b, hIs⟩ := Option.isSome_iff_exists.mp hx.left
    exact hx.right (mem_heldIn.mpr ⟨b, hNew b (hOther.edge hIs), hIs⟩)
  calc (matched g').card
      = (heldIn places g').card + (matched g' \ heldIn places g').card := by
        rw [Nat.add_comm, Finset.card_sdiff_add_card_eq_card heldIn_subset]
    _ ≤ (heldIn places g).card + (matched g' \ heldIn places g').card := by
        refine Nat.add_le_add_right ((card_heldIn_le hOther).trans (card_le_heldIn fun b hPlace => ?_)) _
        obtain ⟨holder, hHolder, -⟩ := hTaken b hPlace
        exact ⟨holder, hHolder⟩
    _ = (matched (mix places g g')).card := by rw [hMatched, Finset.card_union_of_disjoint hDisjoint]
    _ ≤ (matched g).card := h.largest _ hOne hAmong

end Stuck

/-- A largest assignment has all values, if any assignment has. -/
theorem Largest.total_iff {g : α → Option β} (h : Largest neighbour Finset.univ g) :
    (∀ a, (g a).isSome) ↔ ∃ f : α → β, Function.Injective f ∧ ∀ a, neighbour a (f a) := by
  constructor
  · intro hAll
    refine ⟨fun a => (g a).get (hAll a), fun a a' hEq => ?_, fun a => h.oneToOne.edge (Option.some_get (hAll a)).symm⟩
    have hPlace : g a' = some ((g a).get (hAll a)) := (Option.some_get (hAll a')).symm.trans (congrArg some hEq.symm)
    exact h.oneToOne.distinct (Option.some_get (hAll a)).symm hPlace
  · rintro ⟨f, hInj, hEdge⟩ a
    have hOne : OneToOne neighbour fun a => some (f a) :=
      ⟨fun hIs => Option.some.inj hIs ▸ hEdge _, fun hx hy => hInj (Option.some.inj (hx.trans hy.symm))⟩
    have hFull : matched (fun a => some (f a)) = Finset.univ := by
      ext x
      simp
    have hCard := h.largest _ hOne (Finset.subset_univ _)
    rw [hFull] at hCard
    have hEq := Finset.eq_of_subset_of_card_le (Finset.subset_univ (matched g)) hCard
    exact mem_matched.mp (hEq ▸ Finset.mem_univ a)

/-! ## Lists in another order -/

theorem exists_equiv_of_perm {γ : Type*} {xs ys : List γ} (h : xs.Perm ys) :
    ∃ e : Fin xs.length ≃ Fin ys.length, ∀ i, ys[e i] = xs[i] := by
  induction h with
  | nil => exact ⟨Equiv.refl _, fun i => i.elim0⟩
  | cons x _ ih =>
    obtain ⟨e, he⟩ := ih
    refine ⟨(finSuccEquiv _).trans (e.optionCongr.trans (finSuccEquiv _).symm), fun i => ?_⟩
    cases i using Fin.cases with
    | zero => simp
    | succ i => simpa using he i
  | swap x y zs =>
    refine ⟨Equiv.swap 0 1, fun i => ?_⟩
    change (x :: y :: zs).get (Equiv.swap 0 1 i) = (y :: x :: zs).get i
    cases i using Fin.cases with
    | zero =>
      rw [Equiv.swap_apply_left]
      rfl
    | succ i =>
      cases i using Fin.cases with
      | zero =>
        have hSwap : Equiv.swap (0 : Fin (zs.length + 2)) 1 (Fin.succ 0) = 0 := Equiv.swap_apply_right _ _
        rw [hSwap]
        rfl
      | succ i =>
        have hSame : Equiv.swap (0 : Fin (zs.length + 2)) 1 i.succ.succ = i.succ.succ :=
          Equiv.swap_apply_of_ne_of_ne (Fin.succ_ne_zero _) fun h => Fin.succ_ne_zero i (Fin.succ_injective _ h)
        rw [hSame]
        rfl
  | trans _ _ ih₁ ih₂ =>
    obtain ⟨e₁, h₁⟩ := ih₁
    obtain ⟨e₂, h₂⟩ := ih₂
    exact ⟨e₁.trans e₂, fun i => (h₂ (e₁ i)).trans (h₁ i)⟩

/-- Whether all values can be given a place of their own does not depend on the order of either. -/
theorem injective_of_perm {γ δ : Type*} {meets : γ → δ → Prop} {xs xs' : List γ} {ys ys' : List δ} (hxs : xs.Perm xs')
    (hys : ys.Perm ys') (h : ∃ f : Fin xs.length → Fin ys.length, Function.Injective f ∧ ∀ i, meets xs[i] ys[f i]) :
    ∃ f : Fin xs'.length → Fin ys'.length, Function.Injective f ∧ ∀ i, meets xs'[i] ys'[f i] := by
  obtain ⟨f, hInj, hMeets⟩ := h
  obtain ⟨e, he⟩ := exists_equiv_of_perm hxs.symm
  obtain ⟨e', he'⟩ := exists_equiv_of_perm hys
  refine ⟨fun i => e' (f (e i)), e'.injective.comp (hInj.comp e.injective), fun i => ?_⟩
  have hAt := hMeets (e i)
  rw [he i, ← he' (f (e i))] at hAt
  exact hAt

end Bajutsu.Assignment

/-!
# Placing requirements in order

A list of requirements is placed in a list of values by increasing positions, one for each requirement, whose values
meet them. A scan that gives each requirement the first value it can is never behind another placement.
-/

namespace Bajutsu.Placement

variable {α β : Type*} (meets : β → α → Prop)

/-- Increasing positions, each of a value that meets its requirement. -/
def Placed (xs : List α) (rs : List β) : Prop :=
  ∃ position : Fin rs.length → Fin xs.length, StrictMono position ∧ ∀ k, meets rs[k] xs[position k]

variable {meets}

theorem placed_nil (xs : List α) : Placed meets xs [] :=
  ⟨Fin.elim0, fun k => k.elim0, fun k => k.elim0⟩

/-- The values at the positions are a part of the list. -/
theorem placed_iff_sublist {xs : List α} {rs : List β} :
    Placed meets xs rs ↔ ∃ ys, ys.Sublist xs ∧ List.Forall₂ meets rs ys := by
  constructor
  · rintro ⟨position, hMono, hMeets⟩
    refine ⟨List.ofFn fun k => xs[position k], ?_, ?_⟩
    · rw [List.sublist_iff_exists_fin_orderEmbedding_get_eq]
      have hLength : (List.ofFn fun k => xs[position k]).length = rs.length := List.length_ofFn
      refine ⟨OrderEmbedding.ofStrictMono (fun k => position (k.cast hLength)) fun a b h => hMono (by simpa using h), ?_⟩
      intro k
      simp only [List.get_eq_getElem, List.getElem_ofFn]
      rfl
    · rw [List.forall₂_iff_get]
      refine ⟨List.length_ofFn.symm, fun k h₁ h₂ => ?_⟩
      simpa using hMeets ⟨k, h₁⟩
  · rintro ⟨ys, hPart, hMeets⟩
    obtain ⟨embedding, hAt⟩ := List.sublist_iff_exists_fin_orderEmbedding_get_eq.mp hPart
    have hLength := hMeets.length_eq
    refine ⟨fun k => embedding (k.cast hLength), fun a b h => embedding.strictMono (by simpa using h), fun k => ?_⟩
    have hGet := (List.forall₂_iff_get.mp hMeets).2 k.val k.isLt (hLength ▸ k.isLt)
    have hAtK := hAt (k.cast hLength)
    simp only [List.get_eq_getElem, Fin.val_cast] at hGet hAtK
    rw [hAtK] at hGet
    exact hGet

theorem Placed.mono {xs longer : List α} {rs : List β} (h : Placed meets xs rs) (hPart : xs.Sublist longer) :
    Placed meets longer rs := by
  obtain ⟨ys, hYs, hMeets⟩ := placed_iff_sublist.mp h
  exact placed_iff_sublist.mpr ⟨ys, hYs.trans hPart, hMeets⟩

theorem not_placed_nil (r : β) (rs : List β) : ¬Placed meets [] (r :: rs) := by
  rintro ⟨position, -⟩
  exact (position ⟨0, Nat.succ_pos _⟩).elim0

/-- A value that meets the first requirement may be given to it. -/
theorem placed_cons_of_meets {x : α} {xs : List α} {r : β} {rs : List β} (h : meets r x) :
    Placed meets (x :: xs) (r :: rs) ↔ Placed meets xs rs := by
  rw [placed_iff_sublist, placed_iff_sublist]
  constructor
  · rintro ⟨ys, hPart, hMeets⟩
    cases hMeets with
    | cons _ hRest =>
      cases hPart with
      | cons _ hPart => exact ⟨_, (List.sublist_cons_self _ _).trans hPart, hRest⟩
      | cons_cons _ hPart => exact ⟨_, hPart, hRest⟩
  · rintro ⟨ys, hPart, hMeets⟩
    exact ⟨x :: ys, hPart.cons_cons x, .cons h hMeets⟩

/-- A value that does not meet the first requirement is passed over. -/
theorem placed_cons_of_not_meets {x : α} {xs : List α} {r : β} {rs : List β} (h : ¬meets r x) :
    Placed meets (x :: xs) (r :: rs) ↔ Placed meets xs (r :: rs) := by
  constructor
  · rw [placed_iff_sublist, placed_iff_sublist]
    rintro ⟨ys, hPart, hMeets⟩
    cases hMeets with
    | cons hFirst hRest =>
      cases hPart with
      | cons _ hPart => exact ⟨_, hPart, .cons hFirst hRest⟩
      | cons_cons _ hPart => exact absurd hFirst h
  · exact fun hPlaced => hPlaced.mono (List.sublist_cons_self x xs)

/-! ## The scan -/

section Scan

variable {ε : Type*} (judge : β → α → Except ε Bool)

def Meets (r : β) (x : α) : Prop := judge r x = .ok true

def Raises (r : β) (x : α) : Prop := ∃ e, judge r x = .error e

def scan : List α → List β → Except ε Bool
  | _, [] => .ok true
  | [], _ :: _ => .ok false
  | x :: xs, r :: rs => do if ← judge r x then scan xs rs else scan xs (r :: rs)

/-- A requirement raises at no value that the ones before it can be placed in front of, unless it could be placed by
then. -/
def Quiet (xs : List α) (rs : List β) : Prop :=
  ∀ (k : Fin rs.length) (j : Fin xs.length), Placed (Meets judge) (xs.take j) (rs.take k) →
    ¬Placed (Meets judge) (xs.take (j + 1)) (rs.take (k + 1)) → ¬Raises judge rs[k] xs[j]

variable {judge}

theorem quiet_no_requirement (xs : List α) : Quiet judge xs [] := fun k => k.elim0

theorem quiet_no_value (rs : List β) : Quiet judge [] rs := fun _ j => j.elim0

theorem quiet_cons_of_meets {x : α} {xs : List α} {r : β} {rs : List β} (h : Meets judge r x) :
    Quiet judge (x :: xs) (r :: rs) ↔ Quiet judge xs rs := by
  constructor
  · intro hQuiet k j hBefore hNot
    refine hQuiet k.succ j.succ ?_ ?_
    · simpa [placed_cons_of_meets h] using hBefore
    · simpa [placed_cons_of_meets h] using hNot
  · intro hQuiet k j hBefore hNot
    cases k using Fin.cases with
    | zero =>
      -- The first requirement is placed at once.
      refine absurd ?_ hNot
      simpa [placed_cons_of_meets h] using placed_nil _
    | succ k =>
      cases j using Fin.cases with
      | zero => exact absurd hBefore (by simpa using not_placed_nil r _)
      | succ j =>
        refine hQuiet k j ?_ ?_
        · simpa [placed_cons_of_meets h] using hBefore
        · simpa [placed_cons_of_meets h] using hNot

theorem quiet_cons_of_not_meets {x : α} {xs : List α} {r : β} {rs : List β} (h : ¬Meets judge r x) :
    Quiet judge (x :: xs) (r :: rs) ↔ ¬Raises judge r x ∧ Quiet judge xs (r :: rs) := by
  have hPass {ys : List α} {rs' : List β} : Placed (Meets judge) (x :: ys) (r :: rs') ↔ Placed (Meets judge) ys (r :: rs') :=
    placed_cons_of_not_meets h
  constructor
  · intro hQuiet
    constructor
    · refine hQuiet ⟨0, Nat.succ_pos _⟩ ⟨0, Nat.succ_pos _⟩ (placed_nil _) ?_
      simpa [hPass] using not_placed_nil r []
    · intro k j hBefore hNot
      refine hQuiet k j.succ ?_ ?_
      · cases k using Fin.cases with
        | zero => exact placed_nil _
        | succ k => simpa [hPass] using hBefore
      · simpa [hPass] using hNot
  · rintro ⟨hFirst, hQuiet⟩ k j hBefore hNot
    cases j using Fin.cases with
    | zero =>
      cases k using Fin.cases with
      | zero => exact hFirst
      | succ k => exact absurd hBefore (by simpa using not_placed_nil r _)
    | succ j =>
      refine hQuiet k j ?_ ?_
      · cases k using Fin.cases with
        | zero => exact placed_nil _
        | succ k => simpa [hPass] using hBefore
      · simpa [hPass] using hNot

/-- The scan succeeds where the requirements can be placed, and none raises on the way. -/
theorem scan_true_iff (xs : List α) (rs : List β) :
    scan judge xs rs = .ok true ↔ Placed (Meets judge) xs rs ∧ Quiet judge xs rs := by
  induction xs generalizing rs with
  | nil =>
    cases rs with
    | nil => exact iff_of_true rfl ⟨placed_nil [], quiet_no_requirement []⟩
    | cons r rs => exact iff_of_false nofun fun h => not_placed_nil r rs h.left
  | cons x xs ih =>
    cases rs with
    | nil => exact iff_of_true rfl ⟨placed_nil _, quiet_no_requirement _⟩
    | cons r rs =>
      cases hJudge : judge r x with
      | error e =>
        have hNot : ¬Meets judge r x := fun h => nomatch hJudge.symm.trans h
        refine iff_of_false ?_ fun h => ((quiet_cons_of_not_meets hNot).mp h.right).left ⟨e, hJudge⟩
        rw [scan, hJudge]
        exact nofun
      | ok met =>
        have hScan : scan judge (x :: xs) (r :: rs) = if met then scan judge xs rs else scan judge xs (r :: rs) := by
          rw [scan, hJudge]
          rfl
        rw [hScan]
        cases met with
        | true =>
          have hMeets : Meets judge r x := hJudge
          rw [if_pos rfl, ih, placed_cons_of_meets hMeets, quiet_cons_of_meets hMeets]
        | false =>
          have hNot : ¬Meets judge r x := fun h => nomatch hJudge.symm.trans h
          have hCalm : ¬Raises judge r x := fun ⟨e, he⟩ => nomatch hJudge.symm.trans he
          rw [if_neg Bool.false_ne_true, ih, placed_cons_of_not_meets hNot, quiet_cons_of_not_meets hNot,
            and_iff_right hCalm]

end Scan

end Bajutsu.Placement
