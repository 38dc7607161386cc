import Mathlib.Tactic.Common

/-!
# Computations on a state that may raise

What a computation has done to the state before it raises stays done. What it does is said by triples: of the state before,
of the result and the state after, and of the state after an exception. A property that every part keeps is kept by what
the parts are put together to.
-/

namespace Bajutsu

/-- A computation on a state, which returns or raises. -/
def Effect (σ ε α : Type) : Type := σ → Except ε α × σ

namespace Effect

variable {σ ε α β : Type}

protected def pure (a : α) : Effect σ ε α := fun s => (.ok a, s)

protected def bind (x : Effect σ ε α) (f : α → Effect σ ε β) : Effect σ ε β := fun s =>
  match x s with
  | (.ok a, s) => f a s
  | (.error e, s) => (.error e, s)

instance : Monad (Effect σ ε) where
  pure := Effect.pure
  bind := Effect.bind

def raise (e : ε) : Effect σ ε α := fun s => (.error e, s)

def read : Effect σ ε σ := fun s => (.ok s, s)

def modify (f : σ → σ) : Effect σ ε Unit := fun s => (.ok (), f s)

/-- What a computation would raise, as a result. -/
def attempt (x : Effect σ ε α) : Effect σ ε (Except ε α) := fun s => (.ok (x s).1, (x s).2)

/-- Exceptions that a handler is given for go to it, the others through. -/
def catching (x : Effect σ ε α) (handler : ε → Option (Effect σ ε α)) : Effect σ ε α := do
  match ← attempt x with
  | .ok a => return a
  | .error e => (handler e).getD (raise e)

/-! ## Triples -/

/-- From a state with `P`, a result has `Q` together with the state after it, and a state after an exception has `R`. -/
def Triple (P : σ → Prop) (x : Effect σ ε α) (Q : α → σ → Prop) (R : σ → Prop) : Prop :=
  ∀ s, P s → (∀ a, (x s).1 = .ok a → Q a (x s).2) ∧ ∀ e, (x s).1 = .error e → R (x s).2

variable {P : σ → Prop} {Q : α → σ → Prop} {R : σ → Prop}

theorem triple_pure {a : α} (h : ∀ s, P s → Q a s) : Triple P (pure a : Effect σ ε α) Q R := by
  intro s hs
  constructor
  · rintro _ ⟨⟩
    exact h s hs
  · exact nofun

theorem triple_raise {e : ε} (h : ∀ s, P s → R s) : Triple P (raise e : Effect σ ε α) Q R := by
  intro s hs
  constructor
  · exact nofun
  · exact fun _ _ => h s hs

theorem triple_read {Q : σ → σ → Prop} (h : ∀ s, P s → Q s s) : Triple P (read : Effect σ ε σ) Q R := by
  intro s hs
  constructor
  · rintro _ ⟨⟩
    exact h s hs
  · exact nofun

theorem triple_modify {f : σ → σ} {Q : Unit → σ → Prop} (h : ∀ s, P s → Q () (f s)) :
    Triple P (modify f : Effect σ ε Unit) Q R := by
  intro s hs
  exact ⟨fun _ _ => h s hs, nofun⟩

theorem triple_bind {x : Effect σ ε α} {f : α → Effect σ ε β} {M : α → σ → Prop} {Q : β → σ → Prop}
    (hx : Triple P x M R) (hf : ∀ a, Triple (M a) (f a) Q R) : Triple P (x >>= f) Q R := by
  intro s hs
  obtain ⟨hOk, hError⟩ := hx s hs
  change (∀ b, (Effect.bind x f s).1 = .ok b → Q b (Effect.bind x f s).2) ∧
    ∀ e, (Effect.bind x f s).1 = .error e → R (Effect.bind x f s).2
  rw [Effect.bind]
  split
  · rename_i a s' hEq
    rw [hEq] at hOk
    exact hf a s' (hOk a rfl)
  · rename_i e s' hEq
    rw [hEq] at hError
    exact ⟨nofun, fun _ _ => hError e rfl⟩

theorem triple_and {p : Prop} {x : Effect σ ε α} {Q : α → σ → Prop} (h : p → Triple P x Q R) :
    Triple (fun s => p ∧ P s) x Q R :=
  fun s hs => h hs.1 s hs.2

theorem Triple.mono {x : Effect σ ε α} {P' : σ → Prop} {Q' : α → σ → Prop} {R' : σ → Prop} (h : Triple P x Q R)
    (hP : ∀ s, P' s → P s) (hQ : ∀ a s, Q a s → Q' a s) (hR : ∀ s, R s → R' s) : Triple P' x Q' R' := by
  intro s hs
  obtain ⟨hOk, hError⟩ := h s (hP s hs)
  exact ⟨fun a hEq => hQ a _ (hOk a hEq), fun e hEq => hR _ (hError e hEq)⟩

/-! ## What is kept -/

/-- Whatever a computation comes to, the property holds of the state after it where it held of the one before. -/
def Keeps (I : σ → Prop) (x : Effect σ ε α) : Prop := Triple I x (fun _ => I) I

variable {I : σ → Prop}

theorem Keeps.state {x : Effect σ ε α} (h : Keeps I x) {s : σ} (hs : I s) : I (x s).2 := by
  obtain ⟨hOk, hError⟩ := h s hs
  cases hEq : (x s).1 with
  | ok a => exact hOk a hEq
  | error e => exact hError e hEq

theorem keeps_of_state {x : Effect σ ε α} (h : ∀ s, I s → I (x s).2) : Keeps I x :=
  fun s hs => ⟨fun _ _ => h s hs, fun _ _ => h s hs⟩

theorem keeps_pure (a : α) : Keeps I (pure a : Effect σ ε α) := triple_pure fun _ => id

theorem keeps_raise (e : ε) : Keeps I (raise e : Effect σ ε α) := triple_raise fun _ => id

theorem keeps_read : Keeps I (read : Effect σ ε σ) := triple_read fun _ => id

theorem keeps_modify {f : σ → σ} (h : ∀ s, I s → I (f s)) : Keeps I (modify f : Effect σ ε Unit) := triple_modify h

theorem keeps_bind {x : Effect σ ε α} {f : α → Effect σ ε β} (hx : Keeps I x) (hf : ∀ a, Keeps I (f a)) :
    Keeps I (x >>= f) := triple_bind hx hf

theorem keeps_attempt {x : Effect σ ε α} (hx : Keeps I x) : Keeps I (attempt x) :=
  keeps_of_state fun _ hs => hx.state hs

theorem keeps_catching {x : Effect σ ε α} {handler : ε → Option (Effect σ ε α)} (hx : Keeps I x)
    (hHandler : ∀ e h, handler e = some h → Keeps I h) : Keeps I (catching x handler) := by
  apply keeps_bind (keeps_attempt hx)
  intro result
  cases result with
  | ok a => exact keeps_pure a
  | error e =>
    dsimp only
    cases hTaken : handler e with
    | none => exact keeps_raise e
    | some h => exact hHandler e h hTaken

end Effect

end Bajutsu
