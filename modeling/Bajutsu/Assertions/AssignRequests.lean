import Bajutsu.Assertions.Network
import Bajutsu.Lib.Assignment
import Mathlib.Data.Fintype.Card
import Mathlib.Data.List.FinRange

/-!
# Giving each request its own exchange

Kuhn's augmenting paths: a request takes an exchange that it matches and no search has seen yet, and the request that
holds it looks for another. What one search can do to the two arrays is said once; each search then either assigns one
request more or shows that none more can be.
-/

namespace Bajutsu.Assertions

open Assignment

section Augment

variable {m n : Nat}

/-- The two arrays, where `none` is `-1`, and what the search has seen. -/
structure Arrays (m n : Nat) where
  exToReq : Fin n → Option (Fin m)
  assigned : Fin m → Option (Fin n)
  seen : Fin n → Bool

namespace Arrays

def mark (st : Arrays m n) (j : Fin n) : Arrays m n := { st with seen := Function.update st.seen j true }

def assign (st : Arrays m n) (i : Fin m) (j : Fin n) : Arrays m n :=
  { st with exToReq := Function.update st.exToReq j (some i), assigned := Function.update st.assigned i (some j) }

def start (st : Arrays m n) : Arrays m n := { st with seen := fun _ => false }

end Arrays

/-- `for j in adj[i]`, with the search for another exchange. -/
def tryEach (again : Fin m → Arrays m n → Bool × Arrays m n) (i : Fin m) : List (Fin n) → Arrays m n → Bool × Arrays m n
  | [], st => (false, st)
  | j :: js, st =>
    if st.seen j then tryEach again i js st
    else
      match st.exToReq j with
      | none => (true, (st.mark j).assign i j)
      | some k =>
        match again k (st.mark j) with
        | (true, st) => (true, st.assign i j)
        | (false, st) => tryEach again i js st

/-- The number bounds how deep the search goes. -/
def augment (adj : Fin m → List (Fin n)) : Nat → Fin m → Arrays m n → Bool × Arrays m n
  | 0, _, st => (false, st)
  | depth + 1, i, st => tryEach (augment adj depth) i (adj i) st

/-- A search is never deeper than there are exchanges to see. -/
def assignEach (adj : Fin m → List (Fin n)) (is : List (Fin m)) (st : Arrays m n) : Arrays m n :=
  is.foldl (fun st i => (augment adj (n + 1) i st.start).2) st

/-! ## What a search does -/

namespace Arrays

def unseen (st : Arrays m n) : Nat := (Finset.univ.filter fun j => st.seen j = false).card

@[simp] theorem mark_exToReq (st : Arrays m n) (j : Fin n) : (st.mark j).exToReq = st.exToReq := rfl

@[simp] theorem mark_assigned (st : Arrays m n) (j : Fin n) : (st.mark j).assigned = st.assigned := rfl

theorem mark_seen {st : Arrays m n} {j x : Fin n} : (st.mark j).seen x = true ↔ x = j ∨ st.seen x = true := by
  by_cases hx : x = j <;> simp [mark, hx]

theorem assign_assigned_self (st : Arrays m n) (i : Fin m) (j : Fin n) : (st.assign i j).assigned i = some j :=
  Function.update_self ..

theorem assign_assigned_ne (st : Arrays m n) {i k : Fin m} (j : Fin n) (h : k ≠ i) :
    (st.assign i j).assigned k = st.assigned k := Function.update_of_ne h ..

theorem assign_exToReq_self (st : Arrays m n) (i : Fin m) (j : Fin n) : (st.assign i j).exToReq j = some i :=
  Function.update_self ..

theorem assign_exToReq_ne (st : Arrays m n) (i : Fin m) {j x : Fin n} (h : x ≠ j) :
    (st.assign i j).exToReq x = st.exToReq x := Function.update_of_ne h ..

theorem unseen_mark {st : Arrays m n} {j : Fin n} (h : st.seen j = false) : (st.mark j).unseen < st.unseen := by
  refine Finset.card_lt_card (Finset.ssubset_iff_subset_ne.mpr ⟨fun x hx => ?_, fun hEq => ?_⟩)
  · simp only [Finset.mem_filter_univ, Bool.eq_false_iff, ne_eq, mark_seen, not_or] at hx ⊢
    exact hx.right
  · have hMem : j ∈ Finset.univ.filter fun x => st.seen x = false := by simpa using h
    rw [← hEq, Finset.mem_filter_univ] at hMem
    exact Bool.false_ne_true (hMem.symm.trans (mark_seen.mpr (.inl rfl)))

theorem unseen_le {st st' : Arrays m n} (h : ∀ j, st.seen j = true → st'.seen j = true) : st'.unseen ≤ st.unseen := by
  refine Finset.card_le_card fun x hx => ?_
  simp only [Finset.mem_filter_univ, Bool.eq_false_iff, ne_eq] at hx ⊢
  exact fun hSeen => hx (h x hSeen)

theorem unseen_start_le (st : Arrays m n) : st.start.unseen ≤ n := by
  have h := Finset.card_le_univ (Finset.univ.filter fun j => st.start.seen j = false)
  rwa [Fintype.card_fin] at h

end Arrays

variable {adj : Fin m → List (Fin n)}

/-- The two arrays are each other's inverse, and stay within the lists. -/
structure Sound (adj : Fin m → List (Fin n)) (st : Arrays m n) : Prop where
  inverse : ∀ i j, st.assigned i = some j ↔ st.exToReq j = some i
  edge : ∀ i j, st.assigned i = some j → j ∈ adj i

/-- A search for `i` that found an exchange. The one that `i` held is still written to it, and is for whoever searched to
take. -/
structure Grown (adj : Fin m → List (Fin n)) (i : Fin m) (st st' : Arrays m n) : Prop where
  others : ∀ k, k ≠ i → ∀ j, st'.assigned k = some j ↔ st'.exToReq j = some k
  edge : ∀ k j, st'.assigned k = some j → j ∈ adj k
  gained : ∃ j, st.seen j = false ∧ st'.assigned i = some j ∧ st'.exToReq j = some i
  stale : ∀ j, st'.exToReq j = some i → st'.assigned i = some j ∨ st.exToReq j = some i
  kept : ∀ j, st.seen j = true → st'.exToReq j = st.exToReq j
  same : ∀ k, k ≠ i → (st'.assigned k).isSome = (st.assigned k).isSome

/-- A search that found none: it has seen all of the list, and the lists of all that hold what it saw. -/
structure Stuck (adj : Fin m → List (Fin n)) (js : List (Fin n)) (st st' : Arrays m n) : Prop where
  exToReq : st'.exToReq = st.exToReq
  assigned : st'.assigned = st.assigned
  seen : ∀ j, st.seen j = true → st'.seen j = true
  tried : ∀ j ∈ js, st'.seen j = true
  held : ∀ j, st'.seen j = true → st.seen j = false → ∃ k, st.exToReq j = some k ∧ ∀ x ∈ adj k, st'.seen x = true

/-- What comes of a search through a list. -/
def Searched (adj : Fin m → List (Fin n)) (i : Fin m) (js : List (Fin n)) (st : Arrays m n) :
    Bool × Arrays m n → Prop
  | (true, st') => Grown adj i st st'
  | (false, st') => Stuck adj js st st'

/-- A request may search where what it holds has been seen. -/
structure Ready (adj : Fin m → List (Fin n)) (i : Fin m) (st : Arrays m n) : Prop where
  sound : Sound adj st
  seen : ∀ j, st.assigned i = some j → st.seen j = true

theorem Ready.of_same {i : Fin m} {st st' : Arrays m n} (h : Ready adj i st) (hExToReq : st'.exToReq = st.exToReq)
    (hAssigned : st'.assigned = st.assigned) (hSeen : ∀ j, st.seen j = true → st'.seen j = true) : Ready adj i st' where
  sound := ⟨by rw [hExToReq, hAssigned]; exact h.sound.inverse, by rw [hAssigned]; exact h.sound.edge⟩
  seen j hIs := hSeen j (h.seen j (hAssigned ▸ hIs))

theorem Ready.mark {i : Fin m} {st : Arrays m n} (h : Ready adj i st) (j : Fin n) : Ready adj i (st.mark j) :=
  h.of_same rfl rfl fun _ hSeen => Arrays.mark_seen.mpr (.inr hSeen)

theorem grown_of_free {i : Fin m} {st : Arrays m n} {j : Fin n} (h : Ready adj i st) (hUnseen : st.seen j = false)
    (hMem : j ∈ adj i) (hFree : st.exToReq j = none) : Grown adj i st ((st.mark j).assign i j) where
  others k hk x := by
    rw [Arrays.assign_assigned_ne _ _ hk, Arrays.mark_assigned, h.sound.inverse]
    by_cases hx : x = j
    · rw [hx, hFree, Arrays.assign_exToReq_self]
      exact iff_of_false nofun fun hIs => hk (Option.some.inj hIs).symm
    · rw [Arrays.assign_exToReq_ne _ _ hx, Arrays.mark_exToReq]
  edge k x hIs := by
    by_cases hk : k = i
    · rw [hk, Arrays.assign_assigned_self] at hIs
      cases hIs
      exact hk ▸ hMem
    · rw [Arrays.assign_assigned_ne _ _ hk] at hIs
      exact h.sound.edge k x hIs
  gained := ⟨j, hUnseen, Arrays.assign_assigned_self .., Arrays.assign_exToReq_self ..⟩
  stale x hIs := by
    by_cases hx : x = j
    · exact .inl (hx ▸ Arrays.assign_assigned_self ..)
    · rw [Arrays.assign_exToReq_ne _ _ hx] at hIs
      exact .inr hIs
  kept x hSeen := by
    have hx : x ≠ j := fun hx => by simp [hx, hUnseen] at hSeen
    exact Arrays.assign_exToReq_ne _ _ hx
  same k hk := by rw [Arrays.assign_assigned_ne _ _ hk, Arrays.mark_assigned]

theorem grown_of_moved {i k : Fin m} {st st₂ : Arrays m n} {j : Fin n} (h : Ready adj i st)
    (hUnseen : st.seen j = false) (hMem : j ∈ adj i) (hHeld : st.exToReq j = some k)
    (hMoved : Grown adj k (st.mark j) st₂) : Grown adj i st (st₂.assign i j) := by
  have hki : k ≠ i := by
    rintro rfl
    have hSeen := h.seen j ((h.sound.inverse k j).mpr hHeld)
    simp [hUnseen] at hSeen
  have hStill : st₂.exToReq j = some k := (hMoved.kept j (Arrays.mark_seen.mpr (.inl rfl))).trans hHeld
  obtain ⟨y, hNew, hGot, hBack⟩ := hMoved.gained
  have hyj : y ≠ j := by
    rintro rfl
    simp [Arrays.mark] at hNew
  constructor
  · intro l hl x
    rw [Arrays.assign_assigned_ne _ _ hl]
    by_cases hlk : l = k
    · subst hlk
      by_cases hx : x = j
      · rw [hx, Arrays.assign_exToReq_self]
        refine iff_of_false (fun hIs => hyj (Option.some.inj (hGot.symm.trans hIs))) fun hIs => hl (Option.some.inj hIs).symm
      · rw [Arrays.assign_exToReq_ne _ _ hx]
        constructor
        · intro hIs
          rw [← Option.some.inj (hGot.symm.trans hIs)]
          exact hBack
        · intro hIs
          obtain hAt | hOld := hMoved.stale x hIs
          · exact hAt
          · have hOwn := (h.sound.inverse l x).mpr hOld
            have hFirst := (h.sound.inverse l j).mpr hHeld
            exact absurd (Option.some.inj (hOwn.symm.trans hFirst)) hx
    · rw [hMoved.others l hlk]
      by_cases hx : x = j
      · rw [hx, hStill, Arrays.assign_exToReq_self]
        exact iff_of_false (fun hIs => hlk (Option.some.inj hIs).symm) fun hIs => hl (Option.some.inj hIs).symm
      · rw [Arrays.assign_exToReq_ne _ _ hx]
  · intro l x hIs
    by_cases hl : l = i
    · rw [hl, Arrays.assign_assigned_self] at hIs
      cases hIs
      exact hl ▸ hMem
    · rw [Arrays.assign_assigned_ne _ _ hl] at hIs
      exact hMoved.edge l x hIs
  · exact ⟨j, hUnseen, Arrays.assign_assigned_self .., Arrays.assign_exToReq_self ..⟩
  · intro x hIs
    by_cases hx : x = j
    · exact .inl (hx ▸ Arrays.assign_assigned_self ..)
    · rw [Arrays.assign_exToReq_ne _ _ hx] at hIs
      -- What the request held before has been seen, and so nothing else is written to it.
      have hOwn := (hMoved.others i hki.symm x).mpr hIs
      have hSome : (st.assigned i).isSome := by
        have hSame := hMoved.same i hki.symm
        rw [hOwn] at hSame
        exact hSame.symm
      obtain ⟨z, hz⟩ := Option.isSome_iff_exists.mp hSome
      have hBefore := (h.sound.inverse i z).mp hz
      have hAfter : st₂.exToReq z = some i :=
        (hMoved.kept z (Arrays.mark_seen.mpr (.inr (h.seen z hz)))).trans hBefore
      obtain rfl := Option.some.inj (hOwn.symm.trans ((hMoved.others i hki.symm z).mpr hAfter))
      exact .inr hBefore
  · intro x hSeen
    have hx : x ≠ j := fun hx => by simp [hx, hUnseen] at hSeen
    rw [Arrays.assign_exToReq_ne _ _ hx, hMoved.kept x (Arrays.mark_seen.mpr (.inr hSeen)), Arrays.mark_exToReq]
  · intro l hl
    rw [Arrays.assign_assigned_ne _ _ hl]
    by_cases hlk : l = k
    · rw [hlk, hGot, (h.sound.inverse k j).mpr hHeld]
      rfl
    · exact hMoved.same l hlk

theorem Grown.after_stuck {i : Fin m} {st st₂ st₃ : Arrays m n} (h : Grown adj i st₂ st₃)
    (hExToReq : st₂.exToReq = st.exToReq) (hAssigned : st₂.assigned = st.assigned)
    (hSeen : ∀ j, st.seen j = true → st₂.seen j = true) : Grown adj i st st₃ where
  others := h.others
  edge := h.edge
  gained := by
    obtain ⟨j, hUnseen, hGained⟩ := h.gained
    refine ⟨j, ?_, hGained⟩
    rw [Bool.eq_false_iff]
    exact fun hOld => Bool.false_ne_true (hUnseen.symm.trans (hSeen j hOld))
  stale j hIs := hExToReq ▸ h.stale j hIs
  kept j hOld := (h.kept j (hSeen j hOld)).trans (congrFun hExToReq j)
  same k hk := (h.same k hk).trans (congrArg Option.isSome (congrFun hAssigned k))

theorem Stuck.cons_seen {j : Fin n} {js : List (Fin n)} {st st' : Arrays m n} (hSeen : st.seen j = true)
    (h : Stuck adj js st st') : Stuck adj (j :: js) st st' :=
  { h with tried := List.forall_mem_cons.mpr ⟨h.seen j hSeen, h.tried⟩ }

theorem Stuck.cons_stuck {j : Fin n} {js : List (Fin n)} {k : Fin m} {st st₂ st₃ : Arrays m n}
    (hHeld : st.exToReq j = some k) (h₁ : Stuck adj (adj k) (st.mark j) st₂) (h₂ : Stuck adj js st₂ st₃) :
    Stuck adj (j :: js) st st₃ where
  exToReq := h₂.exToReq.trans h₁.exToReq
  assigned := h₂.assigned.trans h₁.assigned
  seen x hSeen := h₂.seen x (h₁.seen x (Arrays.mark_seen.mpr (.inr hSeen)))
  tried := List.forall_mem_cons.mpr ⟨h₂.seen j (h₁.seen j (Arrays.mark_seen.mpr (.inl rfl))), h₂.tried⟩
  held x hSeen hUnseen := by
    cases hMid : st₂.seen x with
    | false =>
      obtain ⟨l, hl, hAll⟩ := h₂.held x hSeen hMid
      rw [h₁.exToReq] at hl
      exact ⟨l, hl, hAll⟩
    | true =>
      by_cases hx : x = j
      · exact ⟨k, hx ▸ hHeld, fun y hy => h₂.seen y (h₁.tried y hy)⟩
      · have hMark : (st.mark j).seen x = false := by
          rw [Bool.eq_false_iff]
          intro hMarked
          obtain hIs | hOld := Arrays.mark_seen.mp hMarked
          · exact hx hIs
          · exact Bool.false_ne_true (hUnseen.symm.trans hOld)
        obtain ⟨l, hl, hAll⟩ := h₁.held x hMid hMark
        exact ⟨l, hl, fun y hy => h₂.seen y (hAll y hy)⟩

theorem tryEach_searched {again : Fin m → Arrays m n → Bool × Arrays m n} {bound : Nat}
    (hAgain : ∀ k st, Ready adj k st → st.unseen < bound → Searched adj k (adj k) st (again k st)) (i : Fin m)
    (js : List (Fin n)) (hSub : ∀ j ∈ js, j ∈ adj i) {st : Arrays m n} (h : Ready adj i st)
    (hBound : st.unseen ≤ bound) : Searched adj i js st (tryEach again i js st) := by
  induction js generalizing st with
  | nil => exact ⟨rfl, rfl, fun _ => id, nofun, fun j hSeen hUnseen => absurd (hSeen.symm.trans hUnseen) nofun⟩
  | cons j js ih =>
    obtain ⟨hMem, hRest⟩ := List.forall_mem_cons.mp hSub
    rw [tryEach]
    cases hSeen : st.seen j with
    | true =>
      rw [if_pos rfl]
      have hTail := ih hRest h hBound
      cases hOut : tryEach again i js st with
      | mk found st' =>
        rw [hOut] at hTail
        cases found with
        | true => exact hTail
        | false => exact Stuck.cons_seen hSeen hTail
    | false =>
      rw [if_neg Bool.false_ne_true]
      cases hHeld : st.exToReq j with
      | none => exact grown_of_free h hSeen hMem hHeld
      | some k =>
        have hReady : Ready adj k (st.mark j) := by
          refine ⟨(h.mark j).sound, fun x hIs => Arrays.mark_seen.mpr (.inl ?_)⟩
          exact Option.some.inj (hIs.symm.trans ((h.sound.inverse k j).mpr hHeld))
        have hLess : (st.mark j).unseen < bound := (Arrays.unseen_mark hSeen).trans_le hBound
        have hInner := hAgain k (st.mark j) hReady hLess
        dsimp only
        cases hOut : again k (st.mark j) with
        | mk found st₂ =>
          rw [hOut] at hInner
          cases found with
          | true => exact grown_of_moved h hSeen hMem hHeld hInner
          | false =>
            have hStuck : Stuck adj (adj k) (st.mark j) st₂ := hInner
            have hNext := ih hRest ((h.mark j).of_same hStuck.exToReq hStuck.assigned hStuck.seen)
              ((Arrays.unseen_le hStuck.seen).trans hLess.le)
            dsimp only
            cases hLast : tryEach again i js st₂ with
            | mk found st₃ =>
              rw [hLast] at hNext
              cases found with
              | true =>
                have hGrown : Grown adj i st₂ st₃ := hNext
                exact hGrown.after_stuck hStuck.exToReq hStuck.assigned
                  fun x hx => hStuck.seen x (Arrays.mark_seen.mpr (.inr hx))
              | false => exact Stuck.cons_stuck hHeld hStuck hNext

theorem augment_searched (depth : Nat) (i : Fin m) {st : Arrays m n} (h : Ready adj i st) (hDepth : st.unseen < depth) :
    Searched adj i (adj i) st (augment adj depth i st) := by
  induction depth generalizing i st with
  | zero => exact absurd hDepth (Nat.not_lt_zero _)
  | succ depth ih =>
    rw [augment]
    exact tryEach_searched (fun k st => ih k) i (adj i) (fun _ => id) h (Nat.le_of_lt_succ hDepth)

theorem Ready.of_start {i : Fin m} {st : Arrays m n} (h : Sound adj st) (hNone : st.assigned i = none) :
    Ready adj i st.start := ⟨⟨h.inverse, h.edge⟩, fun _ hIs => nomatch hNone.symm.trans hIs⟩

theorem Sound.oneToOne {st : Arrays m n} (h : Sound adj st) : OneToOne (fun i j => j ∈ adj i) st.assigned :=
  ⟨fun hIs => h.edge _ _ hIs,
    fun hx hy => Option.some.inj (((h.inverse _ _).mp hx).symm.trans ((h.inverse _ _).mp hy))⟩

theorem Grown.sound {i : Fin m} {st st' : Arrays m n} (h : Sound adj st) (hNone : st.assigned i = none)
    (hGrown : Grown adj i st st') : Sound adj st' := by
  refine ⟨fun k j => ?_, hGrown.edge⟩
  by_cases hk : k = i
  · subst hk
    constructor
    · intro hIs
      obtain ⟨x, -, hGot, hBack⟩ := hGrown.gained
      rw [← Option.some.inj (hGot.symm.trans hIs)]
      exact hBack
    · intro hIs
      refine (hGrown.stale j hIs).resolve_right fun hOld => ?_
      exact nomatch hNone.symm.trans ((h.inverse k j).mpr hOld)
  · exact hGrown.others k hk j

theorem Grown.matched {i : Fin m} {st st' : Arrays m n} (h : Grown adj i st st') :
    matched st'.assigned = insert i (matched st.assigned) := by
  ext k
  rw [Finset.mem_insert, mem_matched, mem_matched]
  by_cases hk : k = i
  · obtain ⟨j, -, hGot, -⟩ := h.gained
    exact iff_of_true (by rw [hk, hGot]; rfl) (.inl hk)
  · rw [h.same k hk, or_iff_right hk]

/-- One search keeps the assignment largest among the requests searched for so far. -/
theorem augment_largest {values : Finset (Fin m)} {i : Fin m} {st : Arrays m n} (h : Sound adj st)
    (hLargest : Largest (fun i j => j ∈ adj i) values st.assigned) (hNew : i ∉ values) :
    Sound adj (augment adj (n + 1) i st.start).2 ∧
      Largest (fun i j => j ∈ adj i) (insert i values) (augment adj (n + 1) i st.start).2.assigned := by
  have hUnmatched : i ∉ matched st.assigned := fun hMem => hNew (hLargest.within hMem)
  have hNone : st.assigned i = none := by simpa using hUnmatched
  have hSearch := augment_searched (n + 1) i (Ready.of_start h hNone) (Nat.lt_succ_of_le st.unseen_start_le)
  cases hOut : augment adj (n + 1) i st.start with
  | mk found st' =>
    rw [hOut] at hSearch
    cases found with
    | true =>
      have hGrown : Grown adj i st.start st' := hSearch
      have hStart : Sound adj st.start := ⟨h.inverse, h.edge⟩
      have hSound := hGrown.sound hStart hNone
      exact ⟨hSound, hLargest.grown hSound.oneToOne hGrown.matched hUnmatched⟩
    | false =>
      have hStuck : Stuck adj (adj i) st.start st' := hSearch
      have hSame : st'.assigned = st.assigned := hStuck.assigned
      have hSound : Sound adj st' := by
        refine ⟨?_, hSame ▸ h.edge⟩
        rw [hSame, hStuck.exToReq]
        exact h.inverse
      refine ⟨hSound, ?_⟩
      rw [hSame]
      -- The places are the exchanges that the search has seen.
      have hTried : ∀ j, j ∈ adj i → j ∈ Finset.univ.filter fun j => st'.seen j = true :=
        fun j hMem => by simpa using hStuck.tried j hMem
      refine hLargest.stuck hTried fun j hMem => ?_
      obtain ⟨k, hk, hAll⟩ := hStuck.held j (by simpa using hMem) rfl
      exact ⟨k, (h.inverse k j).mpr hk, fun x hx => by simpa using hAll x hx⟩

theorem assignEach_largest {values : Finset (Fin m)} (is : List (Fin m)) {st : Arrays m n} (h : Sound adj st)
    (hLargest : Largest (fun i j => j ∈ adj i) values st.assigned) (hNodup : is.Nodup)
    (hNew : ∀ i ∈ is, i ∉ values) :
    Sound adj (assignEach adj is st) ∧
      Largest (fun i j => j ∈ adj i) (values ∪ is.toFinset) (assignEach adj is st).assigned := by
  induction is generalizing values st with
  | nil =>
    rw [List.toFinset_nil, Finset.union_empty]
    exact ⟨h, hLargest⟩
  | cons i is ih =>
    obtain ⟨hi, hNew⟩ := List.forall_mem_cons.mp hNew
    obtain ⟨hNot, hNodup⟩ := List.nodup_cons.mp hNodup
    obtain ⟨hSound, hNext⟩ := augment_largest h hLargest hi
    have hRest : ∀ k ∈ is, k ∉ insert i values := by
      intro k hk hMem
      obtain rfl | hOld := Finset.mem_insert.mp hMem
      · exact hNot hk
      · exact hNew k hk hOld
    have hAll := ih hSound hNext hNodup hRest
    rw [List.toFinset_cons, Finset.union_insert, ← Finset.insert_union]
    exact hAll

def Arrays.empty : Arrays m n := ⟨fun _ => none, fun _ => none, fun _ => false⟩

theorem assignEach_all (adj : Fin m → List (Fin n)) :
    Largest (fun i j => j ∈ adj i) Finset.univ (assignEach adj (List.finRange m) Arrays.empty).assigned := by
  have hEmpty : Sound adj (Arrays.empty : Arrays m n) := ⟨fun _ _ => iff_of_false nofun nofun, nofun⟩
  obtain ⟨-, hAll⟩ := assignEach_largest (List.finRange m) hEmpty largest_none (List.nodup_finRange m) fun _ _ => Finset.notMem_empty _
  have hUniv : (∅ : Finset (Fin m)) ∪ (List.finRange m).toFinset = Finset.univ := by
    ext i
    simp
  rwa [hUniv] at hAll

end Augment

end Bajutsu.Assertions
