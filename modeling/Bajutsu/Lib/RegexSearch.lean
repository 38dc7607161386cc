import Bajutsu.Lib.Regex

/-!
# Searching and substituting

The leftmost match of a pattern in a text, and the replacement of all of them from the left. A symbol
no match reaches over splits both; behind a pattern that asks about no word boundary both go on as if
the text started there.
-/

namespace Bajutsu.Regex

variable {α : Type} {R : Reading α}

/-! ## Searching -/

/-- A match and what stands around it. -/
structure Found (α : Type) where
  before : List α
  text : List α
  after : List α
  deriving DecidableEq

namespace Found

def shift (front : List α) (found : Found α) : Found α :=
  ⟨front ++ found.before, found.text, found.after⟩

def extend (found : Found α) (more : List α) : Found α :=
  ⟨found.before, found.text, found.after ++ more⟩

def map {β : Type} (f : α → β) (found : Found α) : Found β :=
  ⟨found.before.map f, found.text.map f, found.after.map f⟩

end Found

/-- The first end the engine reports for a match that starts here. -/
def first (R : Reading α) (r : Re) (st : At α) : Option (At α) := (run R r st).head?

theorem first_append {r : Re} {b : α} (h : Barrier R r b) (st : At α) (after : List α) :
    first R r (st.append (b :: after)) = (first R r st).map fun st => st.append (b :: after) := by
  rw [first, run_append h, List.head?_map, first]

theorem first_map {β : Type} {f : α → β} {R' : Reading β} (hChar : ∀ x, R'.char (f x) = R.char x)
    (hWord : R'.word = R.word) (r : Re) (st : At α) :
    first R' r (st.map f) = (first R r st).map fun st => st.map f := by
  rw [first, run_map hChar hWord, List.head?_map, first]

theorem first_taken {r : Re} {st fin : At α} (h : first R r st = some fin) :
    ∃ taken, st.rest = taken ++ fin.rest ∧ ∀ x ∈ taken, r.accepts (R.char x) = true :=
  run_taken R (List.mem_of_mem_head? h)

/-- A barrier starts no match that takes something. -/
theorem Barrier.first_rest {r : Re} {b : α} (h : Barrier R r b) {w : Bool} {after : List α}
    {fin : At α} (hFirst : first R r ⟨w, b :: after⟩ = some fin) : fin.rest = b :: after := by
  obtain ⟨taken, hTaken, hAccepts⟩ := first_taken hFirst
  cases taken with
  | nil => exact hTaken.symm
  | cons x taken =>
    obtain ⟨rfl, -⟩ := List.cons.inj hTaken
    have hAccepted := hAccepts b List.mem_cons_self
    rw [h.rejected] at hAccepted
    cases hAccepted

/-- `text` up to its tail `rest`. -/
def upTo (text rest : List α) : List α := text.take (text.length - rest.length)

@[simp] theorem upTo_append (taken rest : List α) : upTo (taken ++ rest) rest = taken := by
  simp [upTo]

/-- `Pattern.search`: the leftmost match. -/
def search (R : Reading α) (r : Re) : Bool → List α → Option (Found α)
  | w, [] => (first R r ⟨w, []⟩).map fun _ => ⟨[], [], []⟩
  | w, x :: xs =>
    match first R r ⟨w, x :: xs⟩ with
    | some fin => some ⟨[], upTo (x :: xs) fin.rest, fin.rest⟩
    | none => (search R r (R.word (R.char x)) xs).map fun found => found.shift [x]

theorem search_eq {r : Re} {w : Bool} {text : List α} {found : Found α}
    (h : search R r w text = some found) : text = found.before ++ found.text ++ found.after := by
  induction text generalizing w found with
  | nil =>
    obtain ⟨-, -, rfl⟩ := Option.map_eq_some_iff.mp h
    rfl
  | cons x xs ih =>
    rw [search] at h
    split at h
    · rename_i fin hFirst
      cases h
      obtain ⟨taken, hTaken, -⟩ := first_taken hFirst
      simp only at hTaken
      rw [hTaken, upTo_append]
      rfl
    · obtain ⟨inner, hInner, rfl⟩ := Option.map_eq_some_iff.mp h
      exact congrArg (x :: ·) (ih hInner)

/-- A search over a barrier finds what stands in front of it, or else what follows. -/
theorem search_append {r : Re} {b : α} (h : Barrier R r b) (w : Bool) (text after : List α) :
    search R r w (text ++ b :: after) =
      match search R r w text with
      | some found => some (found.extend (b :: after))
      | none => (search R r false after).map fun found => found.shift (text ++ [b]) := by
  induction text generalizing w with
  | nil =>
    have hFirst := first_append h ⟨w, []⟩ after
    rw [List.nil_append, search, search]
    simp only [At.append, List.nil_append] at hFirst
    rw [hFirst]
    cases hOwn : first R r ⟨w, []⟩ with
    | none => simp [h.nonword, Found.shift]
    | some fin =>
      obtain ⟨taken, hTaken, -⟩ := first_taken hOwn
      have hNil : fin.rest = [] := (List.append_eq_nil_iff.mp hTaken.symm).2
      simp [Found.extend, hNil, upTo]
  | cons x xs ih =>
    have hFirst := first_append h ⟨w, x :: xs⟩ after
    rw [List.cons_append, search, search]
    simp only [At.append, List.cons_append] at hFirst
    rw [hFirst]
    cases hOwn : first R r ⟨w, x :: xs⟩ with
    | none =>
      simp only [Option.map_none, ih]
      cases search R r (R.word (R.char x)) xs with
      | some found => rfl
      | none => simp [Found.shift, Function.comp_def]
    | some fin =>
      obtain ⟨taken, hTaken, -⟩ := first_taken hOwn
      simp only at hTaken
      simp only [Option.map_some, ← List.cons_append, hTaken, upTo_append, Found.extend]
      rw [List.append_assoc, upTo_append]

theorem search_map {β : Type} {f : α → β} {R' : Reading β} (hChar : ∀ x, R'.char (f x) = R.char x)
    (hWord : R'.word = R.word) (r : Re) (w : Bool) (text : List α) :
    search R' r w (text.map f) = (search R r w text).map fun found => found.map f := by
  induction text generalizing w with
  | nil =>
    have hFirst := first_map hChar hWord r ⟨w, []⟩
    simp only [At.map, List.map_nil] at hFirst
    rw [List.map_nil, search, search, hFirst]
    cases first R r ⟨w, []⟩ <;> rfl
  | cons x xs ih =>
    have hFirst := first_map hChar hWord r ⟨w, x :: xs⟩
    simp only [At.map, List.map_cons] at hFirst
    rw [List.map_cons, search, search, hFirst]
    cases first R r ⟨w, x :: xs⟩ with
    | none =>
      simp only [Option.map_none, hChar, hWord, ih]
      cases search R r (R.word (R.char x)) xs <;> rfl
    | some fin => simp [Found.map, upTo]

/-! ## Replacing every match -/

/-- Scanning from the left, what `find` matches is replaced and everything else kept. -/
def replaceAll (R : Reading α) (find : At α → Option (List α × At α)) : Nat → At α → List α
  | 0, st => st.rest
  | n + 1, ⟨w, rest⟩ =>
    match rest with
    | [] => []
    | x :: xs =>
      match find ⟨w, x :: xs⟩ with
      | some (out, fin) =>
        if fin.rest.length ≤ xs.length then out ++ replaceAll R find n fin
        else x :: replaceAll R find n ⟨R.word (R.char x), xs⟩
      | none => x :: replaceAll R find n ⟨R.word (R.char x), xs⟩

theorem replaceAll_fuel {find : At α → Option (List α × At α)} {n m : Nat} {st : At α}
    (hn : st.rest.length ≤ n) (hm : st.rest.length ≤ m) :
    replaceAll R find n st = replaceAll R find m st := by
  induction n generalizing st m with
  | zero =>
    have hNil : st.rest = [] := List.length_eq_zero_iff.mp (Nat.le_zero.mp hn)
    obtain ⟨w, rest⟩ := st
    obtain rfl : rest = [] := hNil
    cases m <;> rfl
  | succ n ih =>
    obtain ⟨w, _ | ⟨x, xs⟩⟩ := st
    · cases m <;> rfl
    · cases m with
      | zero => simp at hm
      | succ m =>
        simp only [List.length_cons, Nat.add_le_add_iff_right] at hn hm
        have hNext := @ih m ⟨R.word (R.char x), xs⟩ hn hm
        rw [replaceAll, replaceAll]
        split
        · split
          · rw [ih (m := m) (by omega) (by omega)]
          · rw [hNext]
        · rw [hNext]

/-- Symbols no match starts at are kept, and what follows is read from behind the last of them. -/
theorem replaceAll_skip {find : At α → Option (List α × At α)} {front : List α} {x : α}
    (hNone : ∀ y ∈ front ++ [x], ∀ w rest, find ⟨w, y :: rest⟩ = none) (w : Bool) (text : List α) :
    replaceAll R find (front ++ x :: text).length ⟨w, front ++ x :: text⟩ =
      front ++ x :: replaceAll R find text.length ⟨R.word (R.char x), text⟩ := by
  induction front generalizing w with
  | nil =>
    have hHere := hNone x (by simp) w text
    rw [List.nil_append, List.nil_append, List.length_cons, replaceAll, hHere]
  | cons y front ih =>
    obtain ⟨hHere, hNone⟩ := List.forall_mem_cons.mp hNone
    rw [List.cons_append, List.length_cons, replaceAll, hHere w, List.cons_append]
    exact congrArg (y :: ·) (ih hNone _)

/-- A barrier of the replacement: no match reaches over it or starts at it. -/
structure Splits (R : Reading α) (find : At α → Option (List α × At α)) (b : α) : Prop where
  local_ : ∀ st after,
    find (st.append (b :: after)) = (find st).map fun m => (m.1, m.2.append (b :: after))
  idle : ∀ w after out fin, find ⟨w, b :: after⟩ = some (out, fin) → fin.rest = b :: after
  nonword : R.word (R.char b) = false

theorem replaceAll_append {find : At α → Option (List α × At α)} {b : α} (h : Splits R find b)
    {n : Nat} (w : Bool) (text after : List α) (hn : (text ++ b :: after).length ≤ n) :
    replaceAll R find n ⟨w, text ++ b :: after⟩ =
      replaceAll R find text.length ⟨w, text⟩ ++ b :: replaceAll R find after.length ⟨false, after⟩ := by
  induction n generalizing w text with
  | zero => simp at hn
  | succ n ih =>
    cases text with
    | nil =>
      have hAfter : replaceAll R find n ⟨R.word (R.char b), after⟩ =
          replaceAll R find after.length ⟨false, after⟩ := by
        rw [h.nonword]
        exact replaceAll_fuel (by simpa using hn) (Nat.le_refl _)
      have hStart : find ⟨w, b :: after⟩ = none ∨ ∃ out fin, find ⟨w, b :: after⟩ = some (out, fin) ∧
          ¬fin.rest.length ≤ after.length := by
        cases hFind : find ⟨w, b :: after⟩ with
        | none => exact .inl rfl
        | some m => exact .inr ⟨m.1, m.2, rfl, by simp [h.idle w after m.1 m.2 hFind]⟩
      rw [List.nil_append, replaceAll]
      rcases hStart with hNone | ⟨out, fin, hSome, hLong⟩
      · simp only [hNone, hAfter]
        rfl
      · simp only [hSome, if_neg hLong, hAfter]
        rfl
    | cons x xs =>
      have hLength : (xs ++ b :: after).length ≤ n := by simpa using hn
      have hSkip := ih (R.word (R.char x)) xs hLength
      have hFind : find ⟨w, x :: (xs ++ b :: after)⟩ =
          (find ⟨w, x :: xs⟩).map fun m => (m.1, m.2.append (b :: after)) :=
        h.local_ ⟨w, x :: xs⟩ after
      rw [List.cons_append, replaceAll, List.length_cons, replaceAll]
      simp only [hFind]
      cases hOwn : find ⟨w, x :: xs⟩ with
      | none => simp only [Option.map_none, hSkip, List.cons_append]
      | some m =>
        obtain ⟨out, wFin, rest⟩ := m
        simp only [Option.map_some, At.append, List.length_append, Nat.add_le_add_iff_right]
        by_cases hShort : rest.length ≤ xs.length
        · simp only [if_pos hShort]
          have hRest : (rest ++ b :: after).length ≤ n := by
            simp only [List.length_append] at hLength ⊢
            omega
          rw [ih wFin rest hRest, List.append_assoc,
            replaceAll_fuel (n := xs.length) (m := rest.length) hShort (Nat.le_refl _)]
        · simp only [if_neg hShort, hSkip, List.cons_append]

theorem replaceAll_map {β : Type} {f : α → β} {R' : Reading β} {find : At α → Option (List α × At α)}
    {find' : At β → Option (List β × At β)} (hChar : ∀ x, R'.char (f x) = R.char x)
    (hWord : R'.word = R.word)
    (hFind : ∀ st, find' (st.map f) = (find st).map fun m => (m.1.map f, m.2.map f)) (n : Nat)
    (st : At α) : replaceAll R' find' n (st.map f) = (replaceAll R find n st).map f := by
  induction n generalizing st with
  | zero => rfl
  | succ n ih =>
    obtain ⟨w, _ | ⟨x, xs⟩⟩ := st
    · rfl
    · have hHere := hFind ⟨w, x :: xs⟩
      have hSkip := ih ⟨R.word (R.char x), xs⟩
      simp only [At.map, List.map_cons] at hHere hSkip ⊢
      rw [replaceAll, replaceAll]
      simp only [hHere, hChar, hWord, hSkip]
      cases find ⟨w, x :: xs⟩ with
      | none => rfl
      | some m =>
        have hFin : replaceAll R' find' n ⟨m.2.afterWord, m.2.rest.map f⟩ =
            (replaceAll R find n m.2).map f := ih m.2
        simp only [Option.map_some, List.length_map, hFin]
        split
        · rw [List.map_append]
        · rfl

/-- What comes out is replacement text or text that was there. -/
theorem mem_replaceAll {find : At α → Option (List α × At α)} {P : α → Prop}
    (hFind : ∀ st out fin, find st = some (out, fin) →
      (∀ x ∈ st.rest, P x) → (∀ x ∈ out, P x) ∧ ∀ x ∈ fin.rest, P x) {n : Nat} {st : At α}
    (hText : ∀ x ∈ st.rest, P x) : ∀ x ∈ replaceAll R find n st, P x := by
  induction n generalizing st with
  | zero => exact hText
  | succ n ih =>
    obtain ⟨w, _ | ⟨x, xs⟩⟩ := st
    · simp [replaceAll]
    · obtain ⟨hx, hxs⟩ := List.forall_mem_cons.mp hText
      have hSkip : ∀ y ∈ x :: replaceAll R find n ⟨R.word (R.char x), xs⟩, P y :=
        List.forall_mem_cons.mpr ⟨hx, ih hxs⟩
      rw [replaceAll]
      split
      · rename_i out fin hSome
        obtain ⟨hOut, hRest⟩ := hFind _ out fin hSome hText
        split
        · exact List.forall_mem_append.mpr ⟨hOut, ih hRest⟩
        · exact hSkip
      · exact hSkip

/-- `Pattern.sub` with a fixed replacement, for a pattern that takes at least one character. -/
def sub (R : Reading α) (r : Re) (out text : List α) : List α :=
  replaceAll R (fun st => (first R r st).map fun fin => (out, fin)) text.length ⟨false, text⟩

theorem Barrier.splits {r : Re} {b : α} (h : Barrier R r b) (out : List α) :
    Splits R (fun st => (first R r st).map fun fin => (out, fin)) b where
  local_ st after := by
    rw [first_append h, Option.map_map, Option.map_map]
    rfl
  idle w after o fin hFind := by
    obtain ⟨end_, hEnd, hPair⟩ := Option.map_eq_some_iff.mp hFind
    cases hPair
    exact h.first_rest hEnd
  nonword := h.nonword

theorem sub_append {r : Re} {b : α} (h : Barrier R r b) (out text after : List α) :
    sub R r out (text ++ b :: after) = sub R r out text ++ b :: sub R r out after :=
  replaceAll_append (h.splits out) false text after (Nat.le_refl _)

theorem sub_map {β : Type} {f : α → β} {R' : Reading β} (hChar : ∀ x, R'.char (f x) = R.char x)
    (hWord : R'.word = R.word) (r : Re) (out text : List α) :
    sub R' r (out.map f) (text.map f) = (sub R r out text).map f := by
  rw [sub, sub, List.length_map]
  refine replaceAll_map hChar hWord (fun st => ?_) text.length ⟨false, text⟩
  rw [first_map hChar hWord, Option.map_map, Option.map_map]
  rfl

theorem mem_sub {r : Re} {out text : List α} {x : α} (h : x ∈ sub R r out text) :
    x ∈ out ∨ x ∈ text := by
  refine mem_replaceAll (P := fun x => x ∈ out ∨ x ∈ text) ?_ (fun x hx => .inr hx) x h
  intro st o fin hFind hText
  obtain ⟨end_, hEnd, hPair⟩ := Option.map_eq_some_iff.mp hFind
  cases hPair
  obtain ⟨taken, hTaken, -⟩ := first_taken hEnd
  refine ⟨fun x hx => .inl hx, fun x hx => hText x ?_⟩
  rw [hTaken]
  exact List.mem_append_right _ hx

/-! ## Going on behind a match -/

theorem first_free {r : Re} (h : r.free = true) (w w' : Bool) (rest : List α) :
    (first R r ⟨w, rest⟩).map At.rest = (first R r ⟨w', rest⟩).map At.rest := by
  rw [first, first, ← List.head?_map, ← List.head?_map, run_free h w w' rest]

theorem search_free {r : Re} (h : r.free = true) (w w' : Bool) (text : List α) :
    search R r w text = search R r w' text := by
  have hFirst := first_free (R := R) h w w' text
  cases text with
  | nil =>
    rw [search, search]
    cases hOwn : first R r ⟨w, []⟩ <;> cases hOther : first R r ⟨w', []⟩ <;>
      simp [hOwn, hOther] at hFirst ⊢
  | cons x xs =>
    rw [search, search]
    cases hOwn : first R r ⟨w, x :: xs⟩ <;> cases hOther : first R r ⟨w', x :: xs⟩ <;>
      simp_all

theorem search_drop_none {r : Re} (h : r.free = true) {w : Bool} {front text : List α}
    (hNone : search R r w (front ++ text) = none) : search R r w text = none := by
  induction front generalizing w with
  | nil => exact hNone
  | cons x front ih =>
    rw [List.cons_append, search] at hNone
    split at hNone
    · cases hNone
    · have hRest := ih (Option.map_eq_none_iff.mp hNone)
      rwa [search_free h w (R.word (R.char x)) text]

/-- A pattern that takes at least one character. -/
def Takes (R : Reading α) (r : Re) : Prop :=
  ∀ st fin, first R r st = some fin → fin.rest.length < st.rest.length

theorem Takes.search_nil {r : Re} (h : Takes R r) (w : Bool) : search R r w [] = none := by
  rw [search]
  cases hOwn : first R r ⟨w, []⟩ with
  | none => rfl
  | some fin => exact absurd (h _ _ hOwn) (Nat.not_lt_zero _)

theorem Takes.after_lt {r : Re} (h : Takes R r) {w : Bool} {text : List α} {found : Found α}
    (hFound : search R r w text = some found) : found.after.length < text.length := by
  induction text generalizing w found with
  | nil =>
    rw [h.search_nil] at hFound
    cases hFound
  | cons x xs ih =>
    rw [search] at hFound
    split at hFound
    · rename_i fin hFirst
      cases hFound
      exact h _ _ hFirst
    · obtain ⟨inner, hInner, rfl⟩ := Option.map_eq_some_iff.mp hFound
      have hShorter := ih hInner
      simp only [Found.shift, List.length_cons]
      omega

theorem replaceAll_free {r : Re} (h : r.free = true) {out : List α} (n : Nat) (w w' : Bool)
    (text : List α) :
    replaceAll R (fun st => (first R r st).map fun fin => (out, fin)) n ⟨w, text⟩ =
      replaceAll R (fun st => (first R r st).map fun fin => (out, fin)) n ⟨w', text⟩ := by
  induction n generalizing w w' text with
  | zero => rfl
  | succ n ih =>
    cases text with
    | nil => rfl
    | cons x xs =>
      have hFirst := first_free (R := R) h w w' (x :: xs)
      rw [replaceAll, replaceAll]
      cases hOwn : first R r ⟨w, x :: xs⟩ <;> cases hOther : first R r ⟨w', x :: xs⟩ <;>
        simp only [hOwn, hOther, Option.map_some, Option.map_none, Option.some.injEq, reduceCtorEq]
          at hFirst ⊢
      simp only [hFirst, ih _ false]

/-- Replacing every match is replacing the leftmost and going on behind it. -/
theorem sub_eq_search {r : Re} (hFree : r.free = true) (hTakes : Takes R r) (out text : List α) :
    sub R r out text =
      match search R r false text with
      | none => text
      | some found => found.before ++ out ++ sub R r out found.after := by
  have hSub (n : Nat) (w : Bool) (text : List α) (hn : text.length ≤ n) :
      replaceAll R (fun st => (first R r st).map fun fin => (out, fin)) n ⟨w, text⟩ =
        sub R r out text := by
    rw [replaceAll_free hFree n w false, sub]
    exact replaceAll_fuel hn (Nat.le_refl _)
  induction text with
  | nil =>
    rw [hTakes.search_nil]
    rfl
  | cons x xs ih =>
    rw [sub, List.length_cons, replaceAll, search]
    cases hOwn : first R r ⟨false, x :: xs⟩ with
    | none =>
      simp only [Option.map_none, hSub xs.length _ xs (Nat.le_refl _)]
      rw [ih, search_free hFree (R.word (R.char x)) false xs]
      cases search R r false xs <;> rfl
    | some fin =>
      have hShort : fin.rest.length ≤ xs.length := Nat.le_of_lt_succ (hTakes _ _ hOwn)
      simp only [Option.map_some, if_pos hShort]
      rw [hSub xs.length fin.afterWord fin.rest hShort, List.nil_append]

/-! ## What substitution keeps -/

/-- A text with parts of it replaced. -/
inductive Masked (out : List α) : List α → List α → Prop
  | nil : Masked out [] []
  | keep (x : α) {text masked : List α} : Masked out text masked → Masked out (x :: text) (x :: masked)
  | drop (taken : List α) {text masked : List α} :
    Masked out text masked → Masked out (taken ++ text) (out ++ masked)

theorem Masked.refl (out text : List α) : Masked out text text := by
  induction text with
  | nil => exact .nil
  | cons x text ih => exact .keep x ih

theorem masked_sub (r : Re) (out text : List α) : Masked out text (sub R r out text) := by
  have hAll (n : Nat) : ∀ st : At α, Masked out st.rest
      (replaceAll R (fun st => (first R r st).map fun fin => (out, fin)) n st) := by
    induction n with
    | zero => exact fun st => .refl out st.rest
    | succ n ih =>
      rintro ⟨w, _ | ⟨x, xs⟩⟩
      · exact .nil
      · rw [replaceAll]
        have hSkip := Masked.keep x (ih ⟨R.word (R.char x), xs⟩)
        cases hOwn : first R r ⟨w, x :: xs⟩ with
        | none => exact hSkip
        | some fin =>
          simp only [Option.map_some]
          split
          · obtain ⟨taken, hTaken, -⟩ := first_taken hOwn
            simp only at hTaken
            rw [hTaken]
            exact .drop taken (ih fin)
          · exact hSkip
  exact hAll text.length ⟨false, text⟩

/-- A front part of a masked text that avoids the head of the replacement was there before. -/
theorem Masked.front {out text front after : List α} {x : α} (hOut : ∀ c ∈ front, c ≠ x) :
    Masked (x :: out) text (front ++ after) → ∃ after', text = front ++ after' := by
  induction front generalizing text with
  | nil => exact fun _ => ⟨text, rfl⟩
  | cons c front ih =>
    intro h
    obtain ⟨hHead, hOut⟩ := List.forall_mem_cons.mp hOut
    generalize hMasked : c :: front ++ after = masked at h
    cases h with
    | nil => cases hMasked
    | keep c' h =>
      obtain ⟨rfl, rfl⟩ := List.cons.inj hMasked
      obtain ⟨after', rfl⟩ := ih hOut h
      exact ⟨after', rfl⟩
    | drop taken h => exact absurd (List.cons.inj hMasked).1 hHead

/-- A part of a masked text that avoids the head of the replacement, and starts with none of its
symbols, was there before. -/
theorem Masked.part {out text before part after : List α} {x c : α}
    (hOut : ∀ d ∈ c :: part, d ≠ x) (hFirst : c ∉ x :: out)
    (h : Masked (x :: out) text (before ++ (c :: part ++ after))) :
    ∃ before' after', text = before' ++ (c :: part ++ after') := by
  generalize hMasked : before ++ (c :: part ++ after) = masked at h
  induction h generalizing before with
  | nil => simp at hMasked
  | @keep d text masked h ih =>
    cases before with
    | nil =>
      obtain ⟨rfl, rfl⟩ := List.cons.inj hMasked
      obtain ⟨after', rfl⟩ := h.front (List.forall_mem_cons.mp hOut).2
      exact ⟨[], after', rfl⟩
    | cons b before =>
      obtain ⟨rfl, hRest⟩ := List.cons.inj hMasked
      obtain ⟨before', after', rfl⟩ := ih hRest
      exact ⟨b :: before', after', rfl⟩
  | @drop taken text masked h ih =>
    rcases List.append_eq_append_iff.mp hMasked with ⟨gap, hGap, hRest⟩ | ⟨gap, hGap, hRest⟩
    · cases gap with
      | nil =>
        obtain ⟨before', after', rfl⟩ := @ih [] hRest
        exact ⟨taken ++ before', after', by rw [List.append_assoc]⟩
      | cons g gap =>
        obtain ⟨rfl, -⟩ := List.cons.inj hRest
        exact absurd (hGap ▸ List.mem_append_right before List.mem_cons_self) hFirst
    · obtain ⟨before', after', rfl⟩ := ih hRest.symm
      exact ⟨taken ++ before', after', by rw [List.append_assoc]⟩

/-- A pattern that asks about no word boundary is found wherever its text stands. -/
theorem search_isSome_of_run {r : Re} (h : r.free = true) {w w' : Bool} {before taken after after' : List α}
    {fin : At α} (hFin : fin ∈ run R r ⟨w, taken ++ after⟩) (hRest : fin.rest = after) :
    (search R r w' (before ++ (taken ++ after'))).isSome := by
  by_contra hNone
  rw [Option.not_isSome_iff_eq_none] at hNone
  obtain ⟨fin', hFin', -⟩ := run_moved h hFin hRest w' after'
  have hHere := search_drop_none h hNone
  have hFirst : first R r ⟨w', taken ++ after'⟩ ≠ none := by
    intro hFirst
    rw [first, List.head?_eq_none_iff] at hFirst
    rw [hFirst] at hFin'
    cases hFin'
  generalize taken ++ after' = text at hHere hFirst
  cases text with
  | nil => exact hFirst (Option.map_eq_none_iff.mp hHere)
  | cons x xs =>
    rw [search] at hHere
    split at hHere
    · cases hHere
    · contradiction

theorem run_text {s : String} {st fin : At α} (h : fin ∈ run R (.text s) st) :
    ∃ taken, st.rest = taken ++ fin.rest ∧ taken.map R.char = s.toList := by
  rw [Re.text] at h
  generalize s.toList = cs at h
  induction cs generalizing st with
  | nil =>
    obtain rfl := List.mem_singleton.mp h
    exact ⟨[], rfl, rfl⟩
  | cons c cs ih =>
    rw [List.foldr_cons, run] at h
    obtain ⟨mid, hMid, hFin⟩ := List.mem_flatMap.mp h
    obtain ⟨w, _ | ⟨x, xs⟩⟩ := st
    · cases hMid
    · simp only [Re.char, run] at hMid
      split at hMid
      · rename_i hChar
        obtain rfl := List.mem_singleton.mp hMid
        obtain ⟨taken, hTaken, hText⟩ := ih hFin
        refine ⟨x :: taken, congrArg (x :: ·) hTaken, ?_⟩
        rw [List.map_cons, hText, of_decide_eq_true hChar]
      · cases hMid

theorem run_of_search {r : Re} {w : Bool} {text : List α} {found : Found α}
    (h : search R r w text = some found) :
    ∃ w' fin, fin ∈ run R r ⟨w', found.text ++ found.after⟩ ∧ fin.rest = found.after := by
  induction text generalizing w found with
  | nil =>
    obtain ⟨fin, hFirst, rfl⟩ := Option.map_eq_some_iff.mp h
    obtain ⟨taken, hTaken, -⟩ := first_taken hFirst
    exact ⟨w, fin, List.mem_of_mem_head? hFirst, (List.append_eq_nil_iff.mp hTaken.symm).2⟩
  | cons x xs ih =>
    rw [search] at h
    split at h
    · rename_i fin hFirst
      cases h
      obtain ⟨taken, hTaken, -⟩ := first_taken hFirst
      simp only at hTaken
      refine ⟨w, fin, ?_, rfl⟩
      rw [hTaken, upTo_append, ← hTaken]
      exact List.mem_of_mem_head? hFirst
    · obtain ⟨inner, hInner, rfl⟩ := Option.map_eq_some_iff.mp h
      obtain ⟨w', fin, hFin, hRest⟩ := ih hInner
      exact ⟨w', fin, hFin, hRest⟩

end Bajutsu.Regex
