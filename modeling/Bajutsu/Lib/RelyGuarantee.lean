import Bajutsu.Lib.Interleaving

/-!
# Rely and guarantee

Calls that are programs share an invariant. Each statement may rely on more than that of the state it runs in;
a program guarantees the invariant, and what its next statement relies on, as long as nobody else breaks what it
relies on now. Then every call returns what its program guarantees.
-/

namespace Bajutsu.Interleaving

variable {σ ι ε κ β γ : Type} {ρ : ι → Type}

def Prog.bind (f : β → Prog ι ρ γ) : Prog ι ρ β → Prog ι ρ γ
  | .ret value => f value
  | .stmt i rest => .stmt i fun reply => (rest reply).bind f

/-- What the next statement relies on. -/
def Prog.Relies (relies : ι → σ → Prop) : Prog ι ρ β → σ → Prop
  | .ret _, _ => True
  | .stmt i _, s => relies i s

section Guarantees

variable (exec : (i : ι) → ε → σ → σ × ρ i) (inv : σ → Prop) (relies : ι → σ → Prop)

def Prog.Guarantees (post : β → Prop) : Prog ι ρ β → Prop
  | .ret value => post value
  | .stmt i rest => ∀ e s, inv s → relies i s →
      inv (exec i e s).1 ∧ (rest (exec i e s).2).Relies relies (exec i e s).1 ∧
        (rest (exec i e s).2).Guarantees post

variable {exec inv relies}

theorem Prog.Relies.bind {p : Prog ι ρ β} {f : β → Prog ι ρ γ} {s : σ} (h : p.Relies relies s)
    (hNext : ∀ value, p = .ret value → (f value).Relies relies s) : (p.bind f).Relies relies s := by
  cases p with
  | ret value => exact hNext value rfl
  | stmt i rest => exact h

/-- A program goes on with what its first part guarantees. -/
theorem Prog.Guarantees.bind {post : β → Prop} {post' : γ → Prop} {p : Prog ι ρ β} {f : β → Prog ι ρ γ}
    (h : p.Guarantees exec inv relies post)
    (hRelies : ∀ value s, post value → inv s → (f value).Relies relies s)
    (hNext : ∀ value, post value → (f value).Guarantees exec inv relies post') :
    (p.bind f).Guarantees exec inv relies post' := by
  induction p with
  | ret value => exact hNext value h
  | stmt i rest ih =>
    intro e s hInv hHere
    obtain ⟨hInv', hThere, hLater⟩ := h e s hInv hHere
    refine ⟨hInv', hThere.bind fun value hRet => ?_, ih _ hLater⟩
    rw [hRet] at hLater
    exact hRelies value _ hLater hInv'

end Guarantees

section Calls

variable {exec : (i : ι) → ε → σ → σ × ρ i} {start : κ → Prog ι ρ β}
variable {inv : σ → Prop} {relies : κ → ι → σ → Prop} {post : κ → β → Prop}

/-- The invariant holds, and every call stands where it guarantees its answer and has what it relies on. -/
structure Guarded (exec : (i : ι) → ε → σ → σ × ρ i) (inv : σ → Prop) (relies : κ → ι → σ → Prop)
    (post : κ → β → Prop) (st : Config σ ι ρ ε κ (Prog ι ρ β)) : Prop where
  shared : inv st.shared
  here : ∀ (n : Nat) (c : κ) (p : Prog ι ρ β), st.threads[n]? = some (c, p) → p.Relies (relies c) st.shared
  later : ∀ (n : Nat) (c : κ) (p : Prog ι ρ β), st.threads[n]? = some (c, p) →
    p.Guarantees exec inv (relies c) (post c)

/-- A statement leaves alone what the other calls rely on. -/
def Spares (exec : (i : ι) → ε → σ → σ × ρ i) (relies : κ → ι → σ → Prop)
    (st : Config σ ι ρ ε κ (Prog ι ρ β)) (n : Nat) (i : ι) (e : ε) : Prop :=
  ∀ (m : Nat) (c : κ) (p : Prog ι ρ β), n ≠ m → st.threads[m]? = some (c, p) → p.Relies (relies c) st.shared →
    p.Relies (relies c) (exec i e st.shared).1

theorem Guarded.step {st fin : Config σ ι ρ ε κ (Prog ι ρ β)} (h : Guarded exec inv relies post st)
    (hStart : ∀ c, (start c).Guarantees exec inv (relies c) (post c))
    (hRelies : ∀ c s, (start c).Relies (relies c) s) {label : Label ε κ}
    (hSpares : ∀ n e c i rest, label = .run n e → st.threads[n]? = some (c, .stmt i rest) →
      Spares exec relies st n i e)
    (hStep : (Machine.ofProg exec start).step st label = some fin) : Guarded exec inv relies post fin := by
  rcases Machine.step_event hStep with ⟨c, -, rfl⟩ | ⟨n, e, c, p, i, rest, hLabel, hThread, hNext, rfl⟩
  · have hThreads (m : Nat) (c' : κ) (p : Prog ι ρ β)
        (hGet : (st.threads ++ [(c, start c)])[m]? = some (c', p)) :
        st.threads[m]? = some (c', p) ∨ (c' = c ∧ p = start c) := by
      rw [List.getElem?_append] at hGet
      split at hGet
      · exact .inl hGet
      · exact .inr (by simpa using List.mem_of_getElem? hGet)
    constructor
    · exact h.shared
    · intro m c' p hGet
      obtain hOld | ⟨rfl, rfl⟩ := hThreads m c' p hGet
      · exact h.here m c' p hOld
      · exact hRelies c' _
    · intro m c' p hGet
      obtain hOld | ⟨rfl, rfl⟩ := hThreads m c' p hGet
      · exact h.later m c' p hOld
      · exact hStart c'
  · cases p with
    | ret value => cases hNext
    | stmt i' rest' =>
      cases hNext
      obtain ⟨hInv, hHere, hLater⟩ := h.later n c _ hThread e st.shared h.shared (h.here n c _ hThread)
      constructor
      · exact hInv
      · intro m c' p hGet
        rcases eq_or_ne n m with rfl | hNe
        · rw [List.getElem?_set_self (List.getElem?_eq_some_iff.mp hThread).1] at hGet
          obtain ⟨rfl, rfl⟩ := Prod.mk.inj (Option.some.inj hGet)
          exact hHere
        · rw [List.getElem?_set_ne hNe] at hGet
          exact hSpares n e c i rest hLabel hThread m c' p hNe hGet (h.here m c' p hGet)
      · intro m c' p hGet
        rcases eq_or_ne n m with rfl | hNe
        · rw [List.getElem?_set_self (List.getElem?_eq_some_iff.mp hThread).1] at hGet
          obtain ⟨rfl, rfl⟩ := Prod.mk.inj (Option.some.inj hGet)
          exact hLater
        · rw [List.getElem?_set_ne hNe] at hGet
          exact h.later m c' p hGet

/-- In a run whose statements leave alone what the other calls rely on, every call returns what it guarantees. -/
theorem Machine.ReachesWhile.guarded {ok : Config σ ι ρ ε κ (Prog ι ρ β) → Label ε κ → Prop}
    (hStart : ∀ c, (start c).Guarantees exec inv (relies c) (post c))
    (hRelies : ∀ c s, (start c).Relies (relies c) s)
    (hSpares : ∀ st n e c i rest, inv st.shared → ok st (.run n e) → st.threads[n]? = some (c, .stmt i rest) →
      Spares exec relies st n i e)
    {s : σ} (hInit : inv s) {fin : Config σ ι ρ ε κ (Prog ι ρ β)}
    (h : (Machine.ofProg exec start).ReachesWhile ok (.init s) fin) : Guarded exec inv relies post fin := by
  refine h.keeps (P := Guarded exec inv relies post) ?_ ⟨hInit, nofun, nofun⟩
  intro st fin label _ hGuarded hOk hStep
  refine hGuarded.step hStart hRelies ?_ hStep
  rintro n e c i rest rfl hThread
  exact hSpares st n e c i rest hGuarded.shared hOk hThread

end Calls

end Bajutsu.Interleaving
