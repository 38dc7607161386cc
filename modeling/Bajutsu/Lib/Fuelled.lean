import Mathlib.Data.List.Basic

/-!
# Computations that may run out of fuel

A computation on a state gives a value, refuses, or runs out of fuel. One that halts gives a value or refuses from
every state.
-/

namespace Bajutsu.Fuelled

abbrev Calc (σ ε α : Type) := StateT σ (ExceptT ε Option) α

variable {σ ε α β : Type}

def outOfFuel : Calc σ ε α := fun _ => (none : Option (Except ε (α × σ)))

def settle (x : Except ε α) : Calc σ ε α := fun s => (some (x.map fun a => (a, s)) : Option (Except ε (α × σ)))

/-- The computation gives this value from this state. -/
def Returns (x : Calc σ ε α) (s : σ) (a : α) (s' : σ) : Prop := x s = (some (.ok (a, s')) : Option (Except ε (α × σ)))

def Halts (x : Calc σ ε α) : Prop := ∀ s, x s ≠ (none : Option (Except ε (α × σ)))

theorem bind_eq (x : Calc σ ε α) (f : α → Calc σ ε β) (s : σ) :
    (x >>= f) s = Option.bind (x s) fun
      | .ok (a, s) => f a s
      | .error e => some (.error e) := by
  change (Option.bind (x s) _ : Option _) = _
  congr 1
  funext result
  cases result with
  | ok value => rfl
  | error e => rfl

theorem returns_pure {a b : α} {s s' : σ} (h : Returns (pure a : Calc σ ε α) s b s') : b = a ∧ s' = s := by
  cases h
  exact ⟨rfl, rfl⟩

theorem returns_bind {x : Calc σ ε α} {f : α → Calc σ ε β} {s s' : σ} {b : β} (h : Returns (x >>= f) s b s') :
    ∃ a mid, Returns x s a mid ∧ Returns (f a) mid b s' := by
  rw [Returns, bind_eq] at h
  obtain ⟨result, hResult, hRest⟩ := Option.bind_eq_some_iff.mp h
  cases result with
  | ok value => exact ⟨value.1, value.2, hResult, hRest⟩
  | error e => cases hRest

theorem returns_settle {x : Except ε α} {s s' : σ} {a : α} (h : Returns (settle x) s a s') : x = .ok a ∧ s' = s := by
  cases x with
  | ok value =>
    cases h
    exact ⟨rfl, rfl⟩
  | error e => cases h

theorem not_returns_outOfFuel {s s' : σ} {a : α} : ¬Returns (outOfFuel : Calc σ ε α) s a s' := nofun

theorem halts_pure (a : α) : Halts (pure a : Calc σ ε α) := by
  rintro s ⟨⟩

theorem halts_settle (x : Except ε α) : Halts (settle x : Calc σ ε α) := by
  rintro s ⟨⟩

theorem halts_bind {x : Calc σ ε α} {f : α → Calc σ ε β} (hx : Halts x)
    (hf : ∀ a s s', Returns x s a s' → Halts (f a)) : Halts (x >>= f) := by
  intro s h
  rw [bind_eq] at h
  cases hResult : x s with
  | none => exact hx s hResult
  | some result =>
    rw [hResult] at h
    cases result with
    | ok value => exact hf value.1 s value.2 hResult value.2 h
    | error e => cases h

theorem halts_mapM {f : α → Calc σ ε β} (xs : List α) (h : ∀ x ∈ xs, Halts (f x)) : Halts (xs.mapM f) := by
  induction xs with
  | nil => exact halts_pure []
  | cons x xs ih =>
    rw [List.mapM_cons]
    apply halts_bind (h x List.mem_cons_self)
    rintro b - - -
    apply halts_bind (ih fun y hMem => h y (List.mem_cons_of_mem x hMem))
    rintro bs - - -
    exact halts_pure _

theorem returns_mapM {f : α → Calc σ ε β} {xs : List α} {ys : List β} {s s' : σ} (h : Returns (xs.mapM f) s ys s') :
    List.Forall₂ (fun x y => ∃ before after, Returns (f x) before y after) xs ys := by
  induction xs generalizing ys s s' with
  | nil =>
    obtain ⟨rfl, -⟩ := returns_pure h
    exact .nil
  | cons x xs ih =>
    rw [List.mapM_cons] at h
    obtain ⟨y, mid, hFirst, hRest⟩ := returns_bind h
    obtain ⟨ys, fin, hTail, hDone⟩ := returns_bind hRest
    obtain ⟨rfl, -⟩ := returns_pure hDone
    exact .cons ⟨s, mid, hFirst⟩ (ih hTail)

/-- What holds of each with enough fuel holds of all with enough. -/
theorem exists_fuel {P : α → Nat → Prop} (xs : List α) (h : ∀ x ∈ xs, ∃ enough, ∀ fuel, enough ≤ fuel → P x fuel) :
    ∃ enough, ∀ fuel, enough ≤ fuel → ∀ x ∈ xs, P x fuel := by
  induction xs with
  | nil => exact ⟨0, fun _ _ _ hMem => nomatch hMem⟩
  | cons x xs ih =>
    obtain ⟨first, hFirst⟩ := h x List.mem_cons_self
    obtain ⟨later, hLater⟩ := ih fun y hMem => h y (List.mem_cons_of_mem x hMem)
    refine ⟨max first later, fun fuel hFuel y hMem => ?_⟩
    rcases List.mem_cons.mp hMem with rfl | hMem
    · exact hFirst fuel (by omega)
    · exact hLater fuel (by omega) y hMem

/-! ## Refusals, and states one after the other -/

/-- The computation refuses from this state. -/
def Raises (x : Calc σ ε α) (s : σ) (e : ε) : Prop := x s = (some (.error e) : Option (Except ε (α × σ)))

theorem raises_settle {x : Except ε α} {s : σ} {e : ε} (h : Raises (settle x : Calc σ ε α) s e) : x = .error e := by
  cases x with
  | ok value => cases h
  | error e' =>
    cases h
    rfl

theorem not_raises_pure {a : α} {s : σ} {e : ε} : ¬Raises (pure a : Calc σ ε α) s e := nofun

theorem raises_bind {x : Calc σ ε α} {f : α → Calc σ ε β} {s : σ} {e : ε} (h : Raises (x >>= f) s e) :
    Raises x s e ∨ ∃ a mid, Returns x s a mid ∧ Raises (f a) mid e := by
  rw [Raises, bind_eq] at h
  obtain ⟨result, hResult, hRest⟩ := Option.bind_eq_some_iff.mp h
  cases result with
  | ok value => exact .inr ⟨value.1, value.2, hResult, hRest⟩
  | error e' =>
    cases hRest
    exact .inl hResult

theorem raises_mapM {f : α → Calc σ ε β} {xs : List α} {s : σ} {e : ε} (h : Raises (xs.mapM f) s e) :
    ∃ x ∈ xs, ∃ s', Raises (f x) s' e := by
  induction xs generalizing s with
  | nil => exact absurd h not_raises_pure
  | cons x xs ih =>
    rw [List.mapM_cons] at h
    obtain hFirst | ⟨y, mid, -, hRest⟩ := raises_bind h
    · exact ⟨x, List.mem_cons_self, s, hFirst⟩
    · obtain hTail | ⟨ys, fin, -, hDone⟩ := raises_bind hRest
      · obtain ⟨x', hMem, hRaises⟩ := ih hTail
        exact ⟨x', List.mem_cons_of_mem x hMem, hRaises⟩
      · exact absurd hDone not_raises_pure

theorem raises_of_halts {x : Calc σ ε α} (hHalts : Halts x) {s : σ} (hNot : ∀ a s', ¬Returns x s a s') :
    ∃ e, Raises x s e := by
  cases hResult : x s with
  | none => exact absurd hResult (hHalts s)
  | some result =>
    cases result with
    | ok value => exact absurd hResult (hNot value.1 value.2)
    | error e => exact ⟨e, hResult⟩

/-- Each computation gives its value, from the state that the one before it leaves. -/
inductive Each (f : α → Calc σ ε β) : σ → List α → List β → σ → Prop
  | nil s : Each f s [] [] s
  | cons {s x y mid xs ys s'} (first : Returns (f x) s y mid) (rest : Each f mid xs ys s') : Each f s (x :: xs) (y :: ys) s'

theorem each_of_mapM {f : α → Calc σ ε β} {xs : List α} {ys : List β} {s s' : σ} (h : Returns (xs.mapM f) s ys s') :
    Each f s xs ys s' := by
  induction xs generalizing ys s with
  | nil =>
    obtain ⟨rfl, rfl⟩ := returns_pure h
    exact .nil _
  | cons x xs ih =>
    rw [List.mapM_cons] at h
    obtain ⟨y, mid, hFirst, hRest⟩ := returns_bind h
    obtain ⟨ys, fin, hTail, hDone⟩ := returns_bind hRest
    obtain ⟨rfl, rfl⟩ := returns_pure hDone
    exact .cons hFirst (ih hTail)

theorem Each.append {f : α → Calc σ ε β} {s mid s' : σ} {xs xs' : List α} {ys ys' : List β} (h : Each f s xs ys mid)
    (h' : Each f mid xs' ys' s') : Each f s (xs ++ xs') (ys ++ ys') s' := by
  induction h with
  | nil => exact h'
  | cons first _ ih => exact .cons first (ih h')

/-! ## Reading and writing the state, and loops -/

theorem returns_get {s a s' : σ} (h : Returns (get : Calc σ ε σ) s a s') : a = s ∧ s' = s := by
  cases h
  exact ⟨rfl, rfl⟩

theorem returns_modify {f : σ → σ} {s s' : σ} {a : PUnit} (h : Returns (modify f : Calc σ ε PUnit) s a s') :
    s' = f s := by
  cases h
  rfl

theorem halts_get : Halts (get : Calc σ ε σ) := by
  rintro s ⟨⟩

theorem halts_modify (f : σ → σ) : Halts (modify f : Calc σ ε PUnit) := by
  rintro s ⟨⟩

theorem not_raises_get {s : σ} {e : ε} : ¬Raises (get : Calc σ ε σ) s e := nofun

theorem not_raises_modify {f : σ → σ} {s : σ} {e : ε} : ¬Raises (modify f : Calc σ ε PUnit) s e := nofun

theorem halts_forM {f : α → Calc σ ε PUnit} (xs : List α) (h : ∀ x ∈ xs, Halts (f x)) : Halts (xs.forM f) := by
  induction xs with
  | nil => exact halts_pure PUnit.unit
  | cons x xs ih =>
    apply halts_bind (h x List.mem_cons_self)
    rintro - - - -
    exact ih fun y hMem => h y (List.mem_cons_of_mem x hMem)

theorem returns_forM_cons {f : α → Calc σ ε PUnit} {x : α} {xs : List α} {s s' : σ} {u : PUnit}
    (h : Returns ((x :: xs).forM f) s u s') : ∃ mid, Returns (f x) s PUnit.unit mid ∧ Returns (xs.forM f) mid u s' := by
  obtain ⟨⟨⟩, mid, hFirst, hRest⟩ := returns_bind h
  exact ⟨mid, hFirst, hRest⟩

theorem raises_forM_cons {f : α → Calc σ ε PUnit} {x : α} {xs : List α} {s : σ} {e : ε}
    (h : Raises ((x :: xs).forM f) s e) :
    Raises (f x) s e ∨ ∃ mid, Returns (f x) s PUnit.unit mid ∧ Raises (xs.forM f) mid e := by
  obtain hFirst | ⟨⟨⟩, mid, hFirst, hRest⟩ := raises_bind h
  · exact .inl hFirst
  · exact .inr ⟨mid, hFirst, hRest⟩

end Bajutsu.Fuelled
