import Bajutsu.Lib.PyValue

/-!
# Computations that raise

Where a computation of several steps raises, one of its steps does, at what the steps before it have come to. A loop
raises where its body does for some item.
-/

namespace Bajutsu.Raising

variable {ε α β : Type}

def Raises (x : Except ε α) : Prop := ∃ e, x = .error e

@[simp] theorem raises_error (e : ε) : Raises (.error e : Except ε α) := ⟨e, rfl⟩

@[simp] theorem not_raises_ok (a : α) : ¬Raises (.ok a : Except ε α) := nofun

@[simp] theorem not_raises_pure (a : α) : ¬Raises (pure a : Except ε α) := nofun

theorem not_raises_iff {x : Except ε α} : ¬Raises x ↔ ∃ a, x = .ok a := by
  cases x with
  | error e => exact iff_of_false (not_not_intro (raises_error e)) nofun
  | ok a => exact iff_of_true (not_raises_ok a) ⟨a, rfl⟩

theorem raises_bind {x : Except ε α} {f : α → Except ε β} :
    Raises (x >>= f) ↔ Raises x ∨ ∃ a, x = .ok a ∧ Raises (f a) := by
  constructor
  · rintro ⟨e, h⟩
    obtain h | ⟨a, hx, h⟩ := PyValue.bind_eq_error.mp h
    · exact .inl ⟨e, h⟩
    · exact .inr ⟨a, hx, e, h⟩
  · rintro (⟨e, h⟩ | ⟨a, hx, e, h⟩)
    · exact ⟨e, PyValue.bind_eq_error.mpr (.inl h)⟩
    · exact ⟨e, PyValue.bind_eq_error.mpr (.inr ⟨a, hx, h⟩)⟩

theorem raises_bind_ok {x : Except ε α} {f : α → Except ε β} (h : ∀ a, ¬Raises (f a)) :
    Raises (x >>= f) ↔ Raises x := by
  rw [raises_bind]
  constructor
  · rintro (hx | ⟨a, -, hf⟩)
    · exact hx
    · exact absurd hf (h a)
  · exact .inl

theorem raises_mapError {δ : Type} {x : Except ε α} {f : ε → δ} : Raises (x.mapError f) ↔ Raises x := by
  cases x with
  | error e => exact iff_of_true (raises_error _) (raises_error e)
  | ok a => exact iff_of_false (not_raises_ok _) (not_raises_ok a)

theorem raises_and {x y : Except ε Bool} : Raises (x <&&> y) ↔ Raises x ∨ x = .ok true ∧ Raises y := by
  cases x with
  | error e => exact iff_of_true ⟨e, rfl⟩ (.inl ⟨e, rfl⟩)
  | ok b =>
    cases b with
    | true => simp [andM, toBool, bind, Except.bind]
    | false =>
      refine iff_of_false nofun ?_
      rintro (h | ⟨h, -⟩)
      · exact not_raises_ok _ h
      · cases h

/-! ## What a computation gives -/

/-- What holds of the result, where there is one. -/
def Gives (P : α → Prop) (x : Except ε α) : Prop := ∀ a, x = .ok a → P a

theorem gives_error (P : α → Prop) (e : ε) : Gives P (.error e : Except ε α) := nofun

theorem gives_ok {P : α → Prop} {a : α} (h : P a) : Gives P (.ok a : Except ε α) := by
  rintro _ ⟨⟩
  exact h

theorem gives_pure {P : α → Prop} {a : α} (h : P a) : Gives P (pure a : Except ε α) := gives_ok h

theorem gives_bind {P : β → Prop} {x : Except ε α} {f : α → Except ε β} (h : ∀ a, x = .ok a → Gives P (f a)) :
    Gives P (x >>= f) := by
  intro b hBind
  obtain ⟨a, hx, hf⟩ := PyValue.bind_eq_ok hBind
  exact h a hx b hf

section Loops

variable {xs : List α}

theorem raises_mapM {f : α → Except ε β} : Raises (xs.mapM f) ↔ ∃ x ∈ xs, Raises (f x) := by
  constructor
  · rintro ⟨e, h⟩
    obtain ⟨x, hMem, hx⟩ := PyValue.exists_of_mapM_error h
    exact ⟨x, hMem, e, hx⟩
  · exact PyValue.mapM_eq_error

theorem exists_answers {f : α → Except ε β} [Inhabited β] (h : ∀ x ∈ xs, ¬Raises (f x)) :
    ∃ g : α → β, ∀ x ∈ xs, f x = .ok (g x) := by
  refine ⟨fun x => (f x).toOption.getD default, fun x hMem => ?_⟩
  obtain ⟨b, hb⟩ := not_raises_iff.mp (h x hMem)
  dsimp only
  rw [hb]
  rfl

theorem raises_filterM {f : α → Except ε Bool} : Raises (xs.filterM f) ↔ ∃ x ∈ xs, Raises (f x) := by
  refine ⟨fun h => ?_, PyValue.filterM_eq_error⟩
  by_contra hNone
  obtain ⟨p, hp⟩ := exists_answers fun x hMem hx => hNone ⟨x, hMem, hx⟩
  rw [PyValue.filterM_eq_ok hp] at h
  exact not_raises_ok _ h

theorem of_mem_filterM {f : α → Except ε Bool} {ys : List α} (h : xs.filterM f = .ok ys) {y : α} (hMem : y ∈ ys) :
    f y = .ok true := by
  have hQuiet : ∀ x ∈ xs, ¬Raises (f x) := by
    intro x hx hRaises
    exact not_raises_iff.mpr ⟨ys, h⟩ (raises_filterM.mpr ⟨x, hx, hRaises⟩)
  obtain ⟨p, hp⟩ := exists_answers hQuiet
  cases (PyValue.filterM_eq_ok hp).symm.trans h
  obtain ⟨hx, hKept⟩ := List.mem_filter.mp hMem
  rw [hp y hx, hKept]

/-- The results of a loop, each of its own item. -/
theorem mapM_eq_ok_iff {f : α → Except ε β} {ys : List β} :
    xs.mapM f = .ok ys ↔ List.Forall₂ (fun x y => f x = .ok y) xs ys := by
  induction xs generalizing ys with
  | nil =>
    constructor
    · intro h
      cases h
      exact .nil
    · intro h
      cases h
      rfl
  | cons x xs ih =>
    rw [List.mapM_cons]
    constructor
    · intro h
      obtain ⟨y, hy, h⟩ := PyValue.bind_eq_ok h
      obtain ⟨rest, hRest, h⟩ := PyValue.bind_eq_ok h
      cases h
      exact .cons hy (ih.mp hRest)
    · rintro (_ | ⟨hy, hRest⟩)
      rw [hy, ih.mpr hRest]
      rfl

theorem exists_of_forall₂ {R : α → β → Prop} {ys : List β} (h : List.Forall₂ R xs ys) {x : α} (hMem : x ∈ xs) :
    ∃ y ∈ ys, R x y := by
  induction h with
  | nil => cases hMem
  | @cons first y xs ys hFirst _ ih =>
    obtain rfl | hRest := List.mem_cons.mp hMem
    · exact ⟨y, List.mem_cons_self, hFirst⟩
    · obtain ⟨result, hResult, hR⟩ := ih hRest
      exact ⟨result, List.mem_cons_of_mem _ hResult, hR⟩

theorem exists_result {f : α → Except ε β} {ys : List β} (h : xs.mapM f = .ok ys) {x : α} (hMem : x ∈ xs) :
    ∃ y ∈ ys, f x = .ok y := exists_of_forall₂ (mapM_eq_ok_iff.mp h) hMem

end Loops

end Bajutsu.Raising
