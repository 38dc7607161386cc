import Mathlib.Data.List.Basic
import Mathlib.Data.List.Infix

/-!
# Calls that interleave

Any number of calls run on a shared state, one atomic statement at a time. Between two statements of one
call any statements of others may run. A statement has an input that its caller does not choose (a clock,
a failure), and each is kept in the history with its reply.
-/

namespace Bajutsu.Interleaving

/-- A call in progress that has returned, or that goes on with the reply to its next statement. -/
inductive Prog (ι : Type) (ρ : ι → Type) (β : Type) where
  | ret (value : β)
  | stmt (i : ι) (rest : ρ i → Prog ι ρ β)

structure Machine (σ ι : Type) (ρ : ι → Type) (ε κ τ : Type) where
  exec : (i : ι) → ε → σ → σ × ρ i
  start : κ → τ
  next : τ → Option ((i : ι) × (ρ i → τ))

structure Event (ι : Type) (ρ : ι → Type) (ε : Type) where
  thread : Nat
  input : ε
  stmt : ι
  reply : ρ stmt

/-- The shared state, every call made so far with where it stands, and the statements run. -/
structure Config (σ ι : Type) (ρ : ι → Type) (ε κ τ : Type) where
  shared : σ
  threads : List (κ × τ)
  history : List (Event ι ρ ε)

inductive Label (ε κ : Type) where
  | call (c : κ)
  | run (thread : Nat) (input : ε)

variable {σ ι ε κ τ β : Type} {ρ : ι → Type}

def Prog.next : Prog ι ρ β → Option ((i : ι) × (ρ i → Prog ι ρ β))
  | .ret _ => none
  | .stmt i rest => some ⟨i, rest⟩

/-- Calls that are programs. -/
def Machine.ofProg (exec : (i : ι) → ε → σ → σ × ρ i) (start : κ → Prog ι ρ β) :
    Machine σ ι ρ ε κ (Prog ι ρ β) where
  exec := exec
  start := start
  next := Prog.next

/-- No call made yet. -/
def Config.init (s : σ) : Config σ ι ρ ε κ τ := ⟨s, [], []⟩

namespace Machine

variable (M : Machine σ ι ρ ε κ τ)

def step (st : Config σ ι ρ ε κ τ) : Label ε κ → Option (Config σ ι ρ ε κ τ)
  | .call c => some { st with threads := st.threads ++ [(c, M.start c)] }
  | .run n e =>
    match st.threads[n]? with
    | none => none
    | some (c, p) =>
      match M.next p with
      | none => none
      | some ⟨i, rest⟩ =>
        some {
          shared := (M.exec i e st.shared).1
          threads := st.threads.set n (c, rest (M.exec i e st.shared).2)
          history := st.history ++ [⟨n, e, i, (M.exec i e st.shared).2⟩] }

def run (st : Config σ ι ρ ε κ τ) : List (Label ε κ) → Option (Config σ ι ρ ε κ τ)
  | [] => some st
  | label :: labels => (M.step st label).bind fun st => run st labels

/-- Where the run of these labels ends. -/
def after (st : Config σ ι ρ ε κ τ) (labels : List (Label ε κ)) : Config σ ι ρ ε κ τ :=
  (M.run st labels).getD st

/-- A run that goes on as long as its steps pass the check. -/
def runWhile (check : Config σ ι ρ ε κ τ → Label ε κ → Bool) (st : Config σ ι ρ ε κ τ) :
    List (Label ε κ) → Option (Config σ ι ρ ε κ τ)
  | [] => some st
  | label :: labels =>
    if check st label then (M.step st label).bind fun st => runWhile check st labels else none

inductive Reaches : Config σ ι ρ ε κ τ → Config σ ι ρ ε κ τ → Prop where
  | refl (st) : Reaches st st
  | tail {st mid fin} {label : Label ε κ} (h : Reaches st mid) (hStep : M.step mid label = some fin) :
      Reaches st fin

variable {M}

/-- What a step does. -/
theorem step_event {st fin : Config σ ι ρ ε κ τ} {label : Label ε κ} (h : M.step st label = some fin) :
    (∃ c, label = .call c ∧ fin = { st with threads := st.threads ++ [(c, M.start c)] }) ∨
      ∃ n e c p i rest, label = .run n e ∧ st.threads[n]? = some (c, p) ∧ M.next p = some ⟨i, rest⟩ ∧
        fin = ⟨(M.exec i e st.shared).1, st.threads.set n (c, rest (M.exec i e st.shared).2),
          st.history ++ [⟨n, e, i, (M.exec i e st.shared).2⟩]⟩ := by
  cases label with
  | call c =>
    cases h
    exact .inl ⟨c, rfl, rfl⟩
  | run n e =>
    rw [step] at h
    split at h
    · cases h
    · rename_i c p hThread
      split at h
      · cases h
      · rename_i i rest hNext
        cases h
        exact .inr ⟨n, e, c, p, i, rest, rfl, hThread, hNext, rfl⟩

/-- Where a call stands after a step: where it stood, at its start, or where its own statement brought it. -/
theorem step_thread {st fin : Config σ ι ρ ε κ τ} {label : Label ε κ} (h : M.step st label = some fin)
    {m : Nat} {c : κ} {p : τ} (hThread : fin.threads[m]? = some (c, p)) :
    st.threads[m]? = some (c, p) ∨ (label = .call c ∧ p = M.start c) ∨
      ∃ e q i rest, label = .run m e ∧ st.threads[m]? = some (c, q) ∧ M.next q = some ⟨i, rest⟩ ∧
        p = rest (M.exec i e st.shared).2 := by
  rcases step_event h with ⟨c', rfl, rfl⟩ | ⟨n, e, c', q, i, rest, rfl, hOld, hNext, rfl⟩
  · rw [List.getElem?_append] at hThread
    split at hThread
    · exact .inl hThread
    · obtain ⟨rfl, rfl⟩ : c = c' ∧ p = M.start c' := by
        simpa using List.mem_of_getElem? hThread
      exact .inr (.inl ⟨rfl, rfl⟩)
  · rcases eq_or_ne n m with rfl | hm
    · rw [List.getElem?_set_self (List.getElem?_eq_some_iff.mp hOld).1] at hThread
      obtain ⟨rfl, rfl⟩ := Prod.mk.inj (Option.some.inj hThread)
      exact .inr (.inr ⟨e, q, i, rest, rfl, hOld, hNext, rfl⟩)
    · rw [List.getElem?_set_ne hm] at hThread
      exact .inl hThread

namespace Reaches

theorem trans {a b c : Config σ ι ρ ε κ τ} (hab : M.Reaches a b) (hbc : M.Reaches b c) : M.Reaches a c := by
  induction hbc with
  | refl => exact hab
  | tail _ hStep ih => exact ih.tail hStep

theorem of_run {labels : List (Label ε κ)} {st fin : Config σ ι ρ ε κ τ}
    (h : M.run st labels = some fin) : M.Reaches st fin := by
  induction labels generalizing st with
  | nil =>
    cases h
    exact .refl _
  | cons label labels ih =>
    obtain ⟨mid, hStep, hRest⟩ := Option.bind_eq_some_iff.mp h
    exact ((Reaches.refl st).tail hStep).trans (ih hRest)

theorem after {st : Config σ ι ρ ε κ τ} {labels : List (Label ε κ)} (h : (M.run st labels).isSome = true) :
    M.Reaches st (M.after st labels) := by
  obtain ⟨fin, hRun⟩ := Option.isSome_iff_exists.mp h
  rw [Machine.after, hRun]
  exact of_run hRun

theorem keeps {P : Config σ ι ρ ε κ τ → Prop} {start fin : Config σ ι ρ ε κ τ}
    (hKeeps : ∀ st fin label, M.Reaches start st → P st → M.step st label = some fin → P fin)
    (h : M.Reaches start fin) (hStart : P start) : P fin := by
  induction h with
  | refl => exact hStart
  | tail h hStep ih => exact hKeeps _ _ _ h ih hStep

theorem shared {P : σ → Prop} (hExec : ∀ i e s, P s → P (M.exec i e s).1)
    {st fin : Config σ ι ρ ε κ τ} (h : M.Reaches st fin) (hStart : P st.shared) : P fin.shared := by
  induction h with
  | refl => exact hStart
  | tail _ hStep ih =>
    rcases step_event hStep with ⟨c, -, rfl⟩ | ⟨n, e, c, p, i, rest, -, -, -, rfl⟩
    · exact ih
    · exact hExec i e _ ih

/-- What every statement keeps of the state and of what has been run on it. -/
theorem logged {P : σ → List (Event ι ρ ε) → Prop}
    (hExec : ∀ n i e s events, P s events → P (M.exec i e s).1 (events ++ [⟨n, e, i, (M.exec i e s).2⟩]))
    {st fin : Config σ ι ρ ε κ τ} (h : M.Reaches st fin) (hStart : P st.shared st.history) :
    P fin.shared fin.history := by
  induction h with
  | refl => exact hStart
  | tail _ hStep ih =>
    rcases step_event hStep with ⟨c, -, rfl⟩ | ⟨n, e, c, p, i, rest, -, -, -, rfl⟩
    · exact ih
    · exact hExec n i e _ _ ih

/-- Where a statement of the history ran. -/
theorem at_event {s : σ} {fin : Config σ ι ρ ε κ τ} (h : M.Reaches (.init s) fin)
    {before after : List (Event ι ρ ε)} {event : Event ι ρ ε} (hHistory : fin.history = before ++ event :: after) :
    ∃ mid, M.Reaches (.init s) mid ∧ mid.history = before ∧
      event.reply = (M.exec event.stmt event.input mid.shared).2 := by
  generalize hInit : Config.init s = start at h
  induction h generalizing before event after with
  | refl =>
    rw [← hInit] at hHistory
    simp [Config.init] at hHistory
  | tail h hStep ih =>
    rcases step_event hStep with ⟨c, -, rfl⟩ | ⟨n, e, c, p, i, rest, -, -, -, rfl⟩
    · exact ih hHistory
    · rcases List.eq_nil_or_concat after with rfl | ⟨after, last, rfl⟩
      · obtain ⟨rfl, hLast⟩ := List.append_inj' hHistory rfl
        obtain rfl := List.singleton_injective hLast
        exact ⟨_, h, rfl, rfl⟩
      · rw [List.concat_eq_append, ← List.cons_append, ← List.append_assoc] at hHistory
        exact ih (List.append_inj' hHistory rfl).1

end Reaches

/-- A run all of whose steps meet the condition. -/
inductive ReachesWhile (M : Machine σ ι ρ ε κ τ) (ok : Config σ ι ρ ε κ τ → Label ε κ → Prop) :
    Config σ ι ρ ε κ τ → Config σ ι ρ ε κ τ → Prop where
  | refl (st) : ReachesWhile M ok st st
  | tail {st mid fin} {label : Label ε κ} (h : ReachesWhile M ok st mid) (hOk : ok mid label)
      (hStep : M.step mid label = some fin) : ReachesWhile M ok st fin

namespace ReachesWhile

variable {ok : Config σ ι ρ ε κ τ → Label ε κ → Prop}

theorem reaches {st fin : Config σ ι ρ ε κ τ} (h : M.ReachesWhile ok st fin) : M.Reaches st fin := by
  induction h with
  | refl => exact .refl _
  | tail _ _ hStep ih => exact ih.tail hStep

theorem mono {ok' : Config σ ι ρ ε κ τ → Label ε κ → Prop} (hOk : ∀ st label, ok st label → ok' st label)
    {st fin : Config σ ι ρ ε κ τ} (h : M.ReachesWhile ok st fin) : M.ReachesWhile ok' st fin := by
  induction h with
  | refl => exact .refl _
  | tail _ hStepOk hStep ih => exact ih.tail (hOk _ _ hStepOk) hStep

theorem trans {a b c : Config σ ι ρ ε κ τ} (hab : M.ReachesWhile ok a b) (hbc : M.ReachesWhile ok b c) :
    M.ReachesWhile ok a c := by
  induction hbc with
  | refl => exact hab
  | tail _ hOk hStep ih => exact ih.tail hOk hStep

theorem of_run {check : Config σ ι ρ ε κ τ → Label ε κ → Bool}
    (hCheck : ∀ st label, check st label = true → ok st label) {labels : List (Label ε κ)}
    {st fin : Config σ ι ρ ε κ τ} (h : M.runWhile check st labels = some fin) : M.ReachesWhile ok st fin := by
  induction labels generalizing st with
  | nil =>
    cases h
    exact .refl _
  | cons label labels ih =>
    rw [runWhile] at h
    split at h
    · rename_i hOk
      obtain ⟨mid, hStep, hRest⟩ := Option.bind_eq_some_iff.mp h
      exact ((ReachesWhile.refl st).tail (hCheck st label hOk) hStep).trans (ih hRest)
    · cases h

theorem keeps {P : Config σ ι ρ ε κ τ → Prop}
    {start fin : Config σ ι ρ ε κ τ}
    (hKeeps : ∀ st fin label, M.Reaches start st → P st → ok st label → M.step st label = some fin → P fin)
    (h : M.ReachesWhile ok start fin) (hStart : P start) : P fin := by
  induction h with
  | refl => exact hStart
  | tail h hOk hStep ih => exact hKeeps _ _ _ h.reaches ih hOk hStep

end ReachesWhile

/-! ## One call -/

/-- The call goes from one place to another by the statements it ran. -/
inductive Drives (M : Machine σ ι ρ ε κ τ) : τ → List (Event ι ρ ε) → τ → Prop where
  | nil (p : τ) : Drives M p [] p
  | cons {p fin : τ} {i : ι} {rest : ρ i → τ} (n : Nat) (e : ε) (reply : ρ i)
      {events : List (Event ι ρ ε)} (hNext : M.next p = some ⟨i, rest⟩)
      (hRest : Drives M (rest reply) events fin) : Drives M p (⟨n, e, i, reply⟩ :: events) fin

theorem Drives.concat {p mid : τ} {events : List (Event ι ρ ε)} (h : Drives M p events mid) {i : ι}
    {rest : ρ i → τ} (hNext : M.next mid = some ⟨i, rest⟩) (n : Nat) (e : ε) (reply : ρ i) :
    Drives M p (events ++ [⟨n, e, i, reply⟩]) (rest reply) := by
  induction h with
  | nil p => exact .cons n e reply hNext (.nil _)
  | cons m e' reply' hFirst _ ih => exact .cons m e' reply' hFirst (ih hNext)

/-- What holds of a call at its start, and after each statement if it held before it. -/
theorem Drives.concat_induction {p fin : τ} {events : List (Event ι ρ ε)} (h : Drives M p events fin)
    {P : List (Event ι ρ ε) → τ → Prop} (hStart : P [] p)
    (hNext : ∀ events mid i rest n e reply, P events mid → M.next mid = some ⟨i, rest⟩ →
      P (events ++ [⟨n, e, i, reply⟩]) (rest reply)) : P events fin := by
  induction h generalizing P with
  | nil => exact hStart
  | cons n e reply hFirst _ ih =>
    have hSecond := hNext [] _ _ _ n e reply hStart hFirst
    refine @ih (fun events => P (_ :: events)) hSecond fun events mid i rest m e' reply' hMid hLast => ?_
    exact hNext (_ :: events) mid i rest m e' reply' hMid hLast

/-- A call stands where it started, or its first statement brought it further. -/
theorem Drives.cases {p fin : τ} {events : List (Event ι ρ ε)} (h : Drives M p events fin) {i : ι} {rest : ρ i → τ}
    (hNext : M.next p = some ⟨i, rest⟩) :
    (fin = p ∧ events = []) ∨
      ∃ n e reply later, events = ⟨n, e, i, reply⟩ :: later ∧ Drives M (rest reply) later fin := by
  cases h with
  | nil => exact .inl ⟨rfl, rfl⟩
  | cons n e reply hFirst hRest =>
    cases hNext.symm.trans hFirst
    exact .inr ⟨n, e, reply, _, rfl, hRest⟩

theorem Drives.done {p fin : τ} {events : List (Event ι ρ ε)} (h : Drives M p events fin) (hNext : M.next p = none) :
    fin = p ∧ events = [] := by
  cases h with
  | nil => exact ⟨rfl, rfl⟩
  | cons n e reply hFirst hRest => cases hNext.symm.trans hFirst

/-- What holds of a call where it starts, and at each place its next statement brings it to. -/
theorem Drives.place {P : τ → Prop}
    (hNext : ∀ p i rest reply, P p → M.next p = some ⟨i, rest⟩ → P (rest reply)) {p fin : τ}
    {events : List (Event ι ρ ε)} (h : Drives M p events fin) (hStart : P p) : P fin := by
  induction h with
  | nil => exact hStart
  | cons n e reply hFirst _ ih => exact ih (hNext _ _ _ reply hStart hFirst)

theorem filterMap_concat {α β : Type} (f : α → Option β) (xs : List α) (x : α) :
    (xs ++ [x]).filterMap f = xs.filterMap f ++ (f x).toList := by
  rw [List.filterMap_append]
  cases hValue : f x with
  | none => rw [List.filterMap_cons_none hValue, List.filterMap_nil, Option.toList_none]
  | some value => rw [List.filterMap_cons_some hValue, List.filterMap_nil, Option.toList_some]

/-- The statements one call ran. -/
def eventsOf (n : Nat) (events : List (Event ι ρ ε)) : List (Event ι ρ ε) :=
  events.filter fun event => event.thread = n

theorem eventsOf_append (n : Nat) (events later : List (Event ι ρ ε)) :
    eventsOf n (events ++ later) = eventsOf n events ++ eventsOf n later := List.filter_append ..

theorem eventsOf_self {n : Nat} (events : List (Event ι ρ ε)) {event : Event ι ρ ε} (h : event.thread = n) :
    eventsOf n (events ++ [event]) = eventsOf n events ++ [event] := by
  rw [eventsOf_append]
  exact congrArg (eventsOf n events ++ ·) (List.filter_cons_of_pos (by simpa using h))

theorem eventsOf_other {n : Nat} (events : List (Event ι ρ ε)) {event : Event ι ρ ε} (h : event.thread ≠ n) :
    eventsOf n (events ++ [event]) = eventsOf n events := by
  rw [eventsOf_append]
  exact (congrArg (eventsOf n events ++ ·) (List.filter_cons_of_neg (by simpa using h))).trans (List.append_nil _)

/-- Every statement is one of a call, and every call stands where its statements brought it. -/
structure Sound (M : Machine σ ι ρ ε κ τ) (st : Config σ ι ρ ε κ τ) : Prop where
  thread : ∀ event ∈ st.history, event.thread < st.threads.length
  drives : ∀ n c p, st.threads[n]? = some (c, p) → Drives M (M.start c) (eventsOf n st.history) p

theorem Sound.init (s : σ) : Sound M (Config.init s) where
  thread := by
    rintro event ⟨⟩
  drives := by
    rintro n c p ⟨⟩

theorem eventsOf_of_lt {st : Config σ ι ρ ε κ τ} (h : Sound M st) {n : Nat} (hn : st.threads.length ≤ n) :
    eventsOf n st.history = [] := by
  rw [eventsOf, List.filter_eq_nil_iff]
  intro event hMem
  have hLess := h.thread event hMem
  simp only [decide_eq_true_eq]
  omega

theorem Sound.step {st fin : Config σ ι ρ ε κ τ} (h : Sound M st) {label : Label ε κ}
    (hStep : M.step st label = some fin) : Sound M fin := by
  rcases step_event hStep with ⟨c, -, rfl⟩ | ⟨n, e, c, p, i, rest, -, hThread, hNext, rfl⟩
  · constructor
    · intro event hMem
      have hLess := h.thread event hMem
      simp only [List.length_append]
      omega
    · intro m c' p' hGet
      rw [List.getElem?_append] at hGet
      split at hGet
      · exact h.drives m c' p' hGet
      · rename_i hNew
        obtain ⟨rfl, rfl⟩ : c' = c ∧ p' = M.start c := by
          simpa using List.mem_of_getElem? hGet
        rw [eventsOf_of_lt h (by omega)]
        exact .nil _
  · constructor
    · intro event hMem
      rw [List.length_set]
      rcases List.mem_append.mp hMem with hOld | hNew
      · exact h.thread event hOld
      · rw [List.mem_singleton.mp hNew]
        exact (List.getElem?_eq_some_iff.mp hThread).1
    · intro m c' p' hGet
      rcases eq_or_ne n m with rfl | hm
      · rw [List.getElem?_set_self (List.getElem?_eq_some_iff.mp hThread).1] at hGet
        obtain ⟨rfl, rfl⟩ := Prod.mk.inj (Option.some.inj hGet)
        rw [eventsOf_self]
        · exact (h.drives n c p hThread).concat hNext n e _
        · rfl
      · rw [List.getElem?_set_ne hm] at hGet
        rw [eventsOf_other st.history hm]
        exact h.drives m c' p' hGet

theorem Reaches.sound {st fin : Config σ ι ρ ε κ τ} (h : M.Reaches st fin) (hStart : Sound M st) :
    Sound M fin := by
  induction h with
  | refl => exact hStart
  | tail _ hStep ih => exact ih.step hStep

/-- A call stays the call it is, and one that has returned stays where it is. -/
theorem Reaches.thread {st fin : Config σ ι ρ ε κ τ} (h : M.Reaches st fin) {n : Nat} {c : κ} {p : τ}
    (hThread : st.threads[n]? = some (c, p)) :
    ∃ p', fin.threads[n]? = some (c, p') ∧ (M.next p = none → p' = p) := by
  induction h with
  | refl => exact ⟨p, hThread, fun _ => rfl⟩
  | tail _ hStep ih =>
    obtain ⟨p', hMid, hDone⟩ := ih
    rcases step_event hStep with ⟨c', -, rfl⟩ | ⟨m, e, c', q, i, rest, -, hOther, hNext, rfl⟩
    · refine ⟨p', ?_, hDone⟩
      rw [List.getElem?_append_left (List.getElem?_eq_some_iff.mp hMid).1]
      exact hMid
    · rcases eq_or_ne m n with rfl | hm
      · rw [hMid] at hOther
        obtain ⟨rfl, rfl⟩ := Prod.mk.inj (Option.some.inj hOther)
        refine ⟨_, List.getElem?_set_self (List.getElem?_eq_some_iff.mp hMid).1, fun hNone => ?_⟩
        rw [hDone hNone, hNone] at hNext
        cases hNext
      · refine ⟨p', ?_, hDone⟩
        rw [List.getElem?_set_ne hm]
        exact hMid

end Machine

/-! ## Programs -/

section Programs

variable {exec : (i : ι) → ε → σ → σ × ρ i} {start : κ → Prog ι ρ β}

theorem drives_ret {v : β} {p : Prog ι ρ β} {events : List (Event ι ρ ε)}
    (h : Machine.Drives (Machine.ofProg exec start) (.ret v) events p) : p = .ret v ∧ events = [] :=
  h.done rfl

theorem drives_stmt_cases {i : ι} {rest : ρ i → Prog ι ρ β} {p : Prog ι ρ β} {events : List (Event ι ρ ε)}
    (h : Machine.Drives (Machine.ofProg exec start) (.stmt i rest) events p) :
    (p = .stmt i rest ∧ events = []) ∨ ∃ n e reply later, events = ⟨n, e, i, reply⟩ :: later ∧
      Machine.Drives (Machine.ofProg exec start) (rest reply) later p :=
  h.cases rfl

theorem drives_stmt {i : ι} {rest : ρ i → Prog ι ρ β} {v : β} {events : List (Event ι ρ ε)}
    (h : Machine.Drives (Machine.ofProg exec start) (.stmt i rest) events (.ret v)) :
    ∃ n e reply later, events = ⟨n, e, i, reply⟩ :: later ∧
      Machine.Drives (Machine.ofProg exec start) (rest reply) later (.ret v) :=
  (drives_stmt_cases h).resolve_left fun hStart => nomatch hStart.1

/-- Every statement the program can come to is one of these. -/
def Prog.Only (Q : ι → Prop) : Prog ι ρ β → Prop
  | .ret _ => True
  | .stmt i rest => Q i ∧ ∀ reply, (rest reply).Only Q

theorem Prog.Only.drives {Q : ι → Prop} {p fin : Prog ι ρ β} (hOnly : p.Only Q)
    {events : List (Event ι ρ ε)} (h : Machine.Drives (Machine.ofProg exec start) p events fin) :
    (∀ event ∈ events, Q event.stmt) ∧ fin.Only Q := by
  induction h with
  | nil => exact ⟨(fun event hMem => nomatch hMem), hOnly⟩
  | @cons p fin i rest n e reply events hNext hRest ih =>
    cases p with
    | ret value => cases hNext
    | stmt i' rest' =>
      cases hNext
      obtain ⟨hFirst, hLater⟩ := hOnly
      obtain ⟨hEvents, hFin⟩ := ih (hLater reply)
      refine ⟨fun event hMem => ?_, hFin⟩
      rcases List.mem_cons.mp hMem with rfl | hMem
      · exact hFirst
      · exact hEvents event hMem

end Programs

end Bajutsu.Interleaving
