import Mathlib.Data.Rat.Defs
import Mathlib.Tactic

/-!
# Python values and insertion-ordered dictionaries

The values a YAML document or a `model_dump` produces, and the three dictionary operations the
modelled code uses on them. A dictionary is the list of its items in insertion order, so writing a
key that is present keeps its place and a new key goes last, as Python's `dict` does.
-/

namespace PyValue

universe u v

section Dictionary

variable {κ : Type u} {β : Type v} [DecidableEq κ]

def get : List (κ × β) → κ → Option β
  | [], _ => none
  | (k', b) :: d, k => if k' = k then some b else get d k

def set : List (κ × β) → κ → β → List (κ × β)
  | [], k, b => [(k, b)]
  | (k', b') :: d, k, b => if k' = k then (k, b) :: d else (k', b') :: set d k b

def setdefault (d : List (κ × β)) (k : κ) (b : β) : List (κ × β) :=
  if (get d k).isSome then d else set d k b

def pop (d : List (κ × β)) (k : κ) : List (κ × β) := d.filter fun item => item.1 ≠ k

attribute [local simp] get set

@[simp] theorem get_nil (k : κ) : get ([] : List (κ × β)) k = none := rfl

theorem get_cons (k' : κ) (b : β) (d : List (κ × β)) (k : κ) :
    get ((k', b) :: d) k = if k' = k then some b else get d k := rfl

@[simp] theorem get_set_self (d : List (κ × β)) (k : κ) (b : β) : get (set d k b) k = some b := by
  induction d with
  | nil => simp [set, get]
  | cons item d ih =>
    by_cases hk : item.1 = k
    · simp [set, get, hk]
    · simp [set, get, hk, ih]

theorem get_set_ne (d : List (κ × β)) {k j : κ} (b : β) (h : j ≠ k) :
    get (set d k b) j = get d j := by
  induction d with
  | nil => simp [set, get, Ne.symm h]
  | cons item d ih =>
    by_cases hk : item.1 = k
    · simp [set, get, hk, Ne.symm h]
    · simp [set, get, hk, ih]

@[simp] theorem get_pop_self (d : List (κ × β)) (k : κ) : get (pop d k) k = none := by
  induction d with
  | nil => rfl
  | cons item d ih =>
    by_cases hk : item.1 = k
    · rw [pop, List.filter_cons_of_neg (by simpa using hk)]
      exact ih
    · rw [pop, List.filter_cons_of_pos (by simpa using hk), get, if_neg hk]
      exact ih

theorem get_pop_ne (d : List (κ × β)) {k j : κ} (h : j ≠ k) : get (pop d k) j = get d j := by
  induction d with
  | nil => rfl
  | cons item d ih =>
    by_cases hk : item.1 = k
    · rw [pop, List.filter_cons_of_neg (by simpa using hk), get, if_neg (hk ▸ Ne.symm h)]
      exact ih
    · rw [pop, List.filter_cons_of_pos (by simpa using hk), get, get]
      rw [← pop, ih]

theorem get_mem {d : List (κ × β)} {k : κ} {b : β} (h : get d k = some b) : (k, b) ∈ d := by
  induction d with
  | nil => cases h
  | cons item d ih =>
    rw [get] at h
    split at h
    · cases h
      subst_vars
      exact List.mem_cons_self
    · exact List.mem_cons_of_mem _ (ih h)

theorem get_isSome_iff {d : List (κ × β)} {k : κ} : (get d k).isSome ↔ k ∈ d.map Prod.fst := by
  induction d with
  | nil => simp
  | cons item d ih =>
    rw [get, List.map_cons, List.mem_cons]
    split
    · rename_i hk
      simp [hk]
    · rename_i hk
      simp [ih, Ne.symm hk]

theorem set_of_get_none {d : List (κ × β)} {k : κ} (h : get d k = none) (b : β) :
    set d k b = d ++ [(k, b)] := by
  induction d with
  | nil => rfl
  | cons item d ih =>
    rw [get] at h
    split at h
    · cases h
    · rename_i hk
      rw [set, if_neg hk, ih h, List.cons_append]

/-- The items `for b in bs: d.setdefault(f(b), b)` leaves: one for each key, the first seen. -/
theorem foldl_setdefault (f : β → κ) (bs : List β) (d : List (κ × β))
    (hNodup : (d.map Prod.fst).Nodup) (hKeys : ∀ item ∈ d, f item.2 = item.1) :
    let d' := bs.foldl (fun d b => setdefault d (f b) b) d
    (d'.map Prod.fst).Nodup ∧ (∀ item ∈ d', f item.2 = item.1) ∧
      (∀ item ∈ d', item ∈ d ∨ item.2 ∈ bs) ∧
      ∀ k, k ∈ d'.map Prod.fst ↔ k ∈ d.map Prod.fst ∨ k ∈ bs.map f := by
  induction bs generalizing d with
  | nil => exact ⟨hNodup, hKeys, fun item h => .inl h, by simp⟩
  | cons b bs ih =>
    rw [List.foldl_cons]
    by_cases hSeen : f b ∈ d.map Prod.fst
    · have hStep : setdefault d (f b) b = d := if_pos (get_isSome_iff.mpr hSeen)
      rw [hStep]
      obtain ⟨hNodup', hKeys', hItems, hAll⟩ := ih d hNodup hKeys
      refine ⟨hNodup', hKeys', fun item h => (hItems item h).imp_right (List.mem_cons_of_mem _), ?_⟩
      intro k
      rw [hAll k, List.map_cons, List.mem_cons]
      constructor
      · exact fun h => h.imp_right .inr
      · rintro (h | rfl | h)
        · exact .inl h
        · exact .inl hSeen
        · exact .inr h
    · have hNone : get d (f b) = none := by
        rwa [← Option.not_isSome_iff_eq_none, get_isSome_iff]
      have hStep : setdefault d (f b) b = d ++ [(f b, b)] := by
        rw [setdefault, hNone, set_of_get_none hNone]
        rfl
      rw [hStep]
      obtain ⟨hNodup', hKeys', hItems, hAll⟩ := ih (d ++ [(f b, b)])
        (by
          rw [List.map_append]
          exact hNodup.append (List.nodup_singleton _) (by simpa using hSeen))
        (by
          intro item hItem
          rcases List.mem_append.mp hItem with hItem | hItem
          · exact hKeys item hItem
          · rw [List.mem_singleton.mp hItem])
      refine ⟨hNodup', hKeys', fun item h => ?_, fun k => ?_⟩
      · rcases hItems item h with hItem | hItem
        · rcases List.mem_append.mp hItem with hItem | hItem
          · exact .inl hItem
          · exact .inr (by simp [List.mem_singleton.mp hItem])
        · exact .inr (List.mem_cons_of_mem _ hItem)
      · rw [hAll k]
        simp [or_assoc]

section GroupBy

variable {α : Type*}

/-- `for x in xs: groups.setdefault(f(x), []).append(x)`. -/
def groupBy (f : α → κ) (xs : List α) : List (κ × List α) :=
  xs.foldl (fun groups x => set groups (f x) ((get groups (f x)).getD [] ++ [x])) []

theorem get_groupBy (f : α → κ) (xs : List α) (k : κ) :
    (get (groupBy f xs) k).getD [] = xs.filter fun x => f x = k := by
  have hFold : ∀ groups : List (κ × List α),
      (get (xs.foldl (fun groups x => set groups (f x) ((get groups (f x)).getD [] ++ [x])) groups)
          k).getD [] = (get groups k).getD [] ++ xs.filter fun x => f x = k := by
    induction xs with
    | nil => simp
    | cons x xs ih =>
      intro groups
      rw [List.foldl_cons, ih]
      by_cases hk : f x = k
      · subst hk
        simp
      · rw [get_set_ne _ _ (Ne.symm hk), List.filter_cons_of_neg (by simpa using hk)]
  rw [groupBy, hFold]
  rfl

theorem map_fst_set (d : List (κ × β)) (k : κ) (b : β) :
    (set d k b).map Prod.fst = if k ∈ d.map Prod.fst then d.map Prod.fst else d.map Prod.fst ++ [k] := by
  induction d with
  | nil => rfl
  | cons item d ih =>
    rw [set]
    by_cases hk : item.1 = k
    · simp [hk]
    · rw [if_neg hk, List.map_cons, List.map_cons, ih]
      by_cases hMem : k ∈ d.map Prod.fst
      · simp [hMem]
      · simp [hMem, Ne.symm hk]

theorem get_of_mem {d : List (κ × β)} {k : κ} {b : β} (hNodup : (d.map Prod.fst).Nodup)
    (h : (k, b) ∈ d) : get d k = some b := by
  induction d with
  | nil => cases h
  | cons item d ih =>
    obtain ⟨hKey, hNodup⟩ := List.nodup_cons.mp hNodup
    rw [get]
    rcases List.mem_cons.mp h with rfl | h
    · exact if_pos rfl
    · have hNe : item.1 ≠ k := fun hEq => hKey (hEq ▸ List.mem_map_of_mem (f := Prod.fst) h)
      rw [if_neg hNe, ih hNodup h]

/-- The keys of the groups, in the order their first element stands in. -/
theorem keys_groupBy (f : α → κ) (xs : List α) :
    ((groupBy f xs).map Prod.fst).Nodup ∧ ∀ k, k ∈ (groupBy f xs).map Prod.fst ↔ k ∈ xs.map f := by
  have hFold : ∀ groups : List (κ × List α), (groups.map Prod.fst).Nodup →
      let final := xs.foldl
        (fun groups x => set groups (f x) ((get groups (f x)).getD [] ++ [x])) groups
      (final.map Prod.fst).Nodup ∧
        ∀ k, k ∈ final.map Prod.fst ↔ k ∈ groups.map Prod.fst ∨ k ∈ xs.map f := by
    induction xs with
    | nil => exact fun groups hNodup => ⟨hNodup, by simp⟩
    | cons x xs ih =>
      intro groups hNodup
      have hKeys := map_fst_set groups (f x) ((get groups (f x)).getD [] ++ [x])
      have hStep : ((set groups (f x) ((get groups (f x)).getD [] ++ [x])).map Prod.fst).Nodup := by
        rw [hKeys]
        split
        · exact hNodup
        · rename_i hMem
          exact hNodup.append (List.nodup_singleton _) (by simpa using hMem)
      obtain ⟨hFinal, hMem⟩ := ih _ hStep
      refine ⟨hFinal, fun k => ?_⟩
      rw [List.foldl_cons, hMem k, hKeys, List.map_cons, List.mem_cons]
      split
      · rename_i hSeen
        constructor
        · exact fun h => h.imp_right .inr
        · rintro (h | rfl | h)
          · exact .inl h
          · exact .inl hSeen
          · exact .inr h
      · simp [or_assoc]
  have hAll := hFold [] List.nodup_nil
  refine ⟨hAll.1, fun k => ?_⟩
  rw [groupBy, hAll.2 k]
  simp

/-- A group is the elements of its key, in order. -/
theorem mem_groupBy_iff (f : α → κ) (xs : List α) (k : κ) (group : List α) :
    (k, group) ∈ groupBy f xs ↔ k ∈ xs.map f ∧ group = xs.filter fun x => f x = k := by
  obtain ⟨hNodup, hKeys⟩ := keys_groupBy f xs
  have hGet := get_groupBy f xs k
  constructor
  · intro h
    refine ⟨(hKeys k).mp (List.mem_map_of_mem (f := Prod.fst) h), ?_⟩
    rwa [get_of_mem hNodup h] at hGet
  · rintro ⟨hk, rfl⟩
    obtain ⟨item, hItem, rfl⟩ := List.mem_map.mp ((hKeys k).mpr hk)
    rw [get_of_mem hNodup hItem] at hGet
    exact hGet ▸ hItem

end GroupBy

end Dictionary

section Loops

variable {ε α β : Type*}

theorem bind_eq_ok {α β : Type} {x : Except ε α} {f : α → Except ε β} {b : β} (h : x >>= f = .ok b) :
    ∃ a, x = .ok a ∧ f a = .ok b := by
  cases x with
  | error e => cases h
  | ok a => exact ⟨a, rfl, h⟩

theorem bind_eq_error {α β : Type} {x : Except ε α} {f : α → Except ε β} {e : ε} :
    x >>= f = .error e ↔ x = .error e ∨ ∃ a, x = .ok a ∧ f a = .error e := by
  cases x with
  | error e' =>
    constructor
    · intro h
      cases h
      exact .inl rfl
    · rintro (h | ⟨_, h, -⟩)
      · cases h
        rfl
      · cases h
  | ok a =>
    constructor
    · intro h
      exact .inr ⟨a, rfl, h⟩
    · rintro (h | ⟨_, h, hError⟩)
      · cases h
      · cases h
        exact hError

theorem mapM_eq_ok {f : α → Except ε β} {g : α → β} {xs : List α} (h : ∀ x ∈ xs, f x = .ok (g x)) :
    xs.mapM f = .ok (xs.map g) := by
  induction xs with
  | nil => rfl
  | cons x xs ih =>
    obtain ⟨hx, h⟩ := List.forall_mem_cons.mp h
    rw [List.mapM_cons, hx, ih h]
    rfl

theorem exists_of_mapM_ok {f : α → Except ε β} {xs : List α} {ys : List β} (h : xs.mapM f = .ok ys) :
    ∀ y ∈ ys, ∃ x ∈ xs, f x = .ok y := by
  induction xs generalizing ys with
  | nil =>
    cases h
    simp
  | cons x xs ih =>
    rw [List.mapM_cons] at h
    cases hx : f x with
    | error e => simp [hx, bind, Except.bind] at h
    | ok y =>
      cases hRest : xs.mapM f with
      | error e => simp [hx, hRest, bind, Except.bind] at h
      | ok rest =>
        simp only [hx, hRest, bind, Except.bind, pure, Except.pure, Except.ok.injEq] at h
        subst h
        refine List.forall_mem_cons.mpr ⟨⟨x, List.mem_cons_self, hx⟩, fun z hz => ?_⟩
        obtain ⟨w, hw, hOk⟩ := ih hRest z hz
        exact ⟨w, List.mem_cons_of_mem _ hw, hOk⟩

/-- A comprehension with an element that raises. -/
theorem exists_of_mapM_error {f : α → Except ε β} {xs : List α} {e : ε} (h : xs.mapM f = .error e) :
    ∃ x ∈ xs, f x = .error e := by
  induction xs with
  | nil => cases h
  | cons x xs ih =>
    rw [List.mapM_cons] at h
    cases hx : f x with
    | error e' =>
      rw [hx] at h
      cases h
      exact ⟨x, List.mem_cons_self, hx⟩
    | ok y =>
      rw [hx] at h
      cases hRest : xs.mapM f with
      | error e' =>
        rw [hRest] at h
        cases h
        obtain ⟨x', hMem, hx'⟩ := ih hRest
        exact ⟨x', List.mem_cons_of_mem _ hMem, hx'⟩
      | ok ys =>
        rw [hRest] at h
        cases h

theorem mapM_eq_error {f : α → Except ε β} {xs : List α} (h : ∃ x ∈ xs, ∃ e, f x = .error e) :
    ∃ e, xs.mapM f = .error e := by
  induction xs with
  | nil =>
    obtain ⟨x, hMem, -⟩ := h
    exact absurd hMem List.not_mem_nil
  | cons x xs ih =>
    rw [List.mapM_cons]
    cases hx : f x with
    | error e => exact ⟨e, rfl⟩
    | ok y =>
      obtain ⟨z, hMem, e, hz⟩ := h
      obtain rfl | hRest := List.mem_cons.mp hMem
      · cases hx.symm.trans hz
      · obtain ⟨e', he'⟩ := ih ⟨z, hRest, e, hz⟩
        exact ⟨e', by rw [he']; rfl⟩

/-- All that a comprehension gives is good where each element gives something good. -/
theorem mapM_all_iff {f : α → Except ε β} {good : β → Bool} {xs : List α} :
    (∃ ys, xs.mapM f = .ok ys ∧ ys.all good = true) ↔ ∀ x ∈ xs, ∃ y, f x = .ok y ∧ good y = true := by
  induction xs with
  | nil => exact iff_of_true ⟨[], rfl, rfl⟩ nofun
  | cons x xs ih =>
    rw [List.forall_mem_cons, ← ih, List.mapM_cons]
    constructor
    · rintro ⟨ys, hIs, hAll⟩
      cases hx : f x with
      | error e => simp [hx, bind, Except.bind] at hIs
      | ok y =>
        cases hRest : xs.mapM f with
        | error e => simp [hx, hRest, bind, Except.bind] at hIs
        | ok rest =>
          simp only [hx, hRest, bind, Except.bind, pure, Except.pure, Except.ok.injEq] at hIs
          subst hIs
          rw [List.all_cons, Bool.and_eq_true] at hAll
          exact ⟨⟨y, rfl, hAll.left⟩, rest, rfl, hAll.right⟩
    · rintro ⟨⟨y, hy, hGood⟩, rest, hRest, hAll⟩
      refine ⟨y :: rest, by rw [hy, hRest]; rfl, ?_⟩
      rw [List.all_cons, hGood, hAll]
      rfl

section Filter

variable {ε α : Type} {f : α → Except ε Bool}

theorem filterAuxM_eq_ok {p : α → Bool} {xs : List α} (h : ∀ x ∈ xs, f x = .ok (p x)) (acc : List α) :
    xs.filterAuxM f acc = .ok ((xs.filter p).reverse ++ acc) := by
  induction xs generalizing acc with
  | nil => rfl
  | cons x xs ih =>
    obtain ⟨hx, h⟩ := List.forall_mem_cons.mp h
    rw [List.filterAuxM, hx]
    change xs.filterAuxM f (cond (p x) (x :: acc) acc) = _
    rw [ih h, List.filter_cons]
    cases p x <;> simp

theorem filterM_eq_ok {p : α → Bool} {xs : List α} (h : ∀ x ∈ xs, f x = .ok (p x)) :
    xs.filterM f = .ok (xs.filter p) := by
  rw [List.filterM, filterAuxM_eq_ok h]
  simp [bind, Except.bind, pure, Except.pure]

theorem filterAuxM_eq_error {xs : List α} (h : ∃ x ∈ xs, ∃ e, f x = .error e) (acc : List α) :
    ∃ e, xs.filterAuxM f acc = .error e := by
  induction xs generalizing acc with
  | nil =>
    obtain ⟨x, hMem, -⟩ := h
    exact absurd hMem List.not_mem_nil
  | cons x xs ih =>
    rw [List.filterAuxM]
    cases hx : f x with
    | error e => exact ⟨e, rfl⟩
    | ok b =>
      obtain ⟨z, hMem, e, hz⟩ := h
      obtain rfl | hRest := List.mem_cons.mp hMem
      · cases hx.symm.trans hz
      · exact ih ⟨z, hRest, e, hz⟩ _

theorem filterM_eq_error {xs : List α} (h : ∃ x ∈ xs, ∃ e, f x = .error e) : ∃ e, xs.filterM f = .error e := by
  obtain ⟨e, he⟩ := filterAuxM_eq_error h []
  exact ⟨e, by rw [List.filterM, he]; rfl⟩

end Filter

end Loops

/-- A finite float as the rational it denotes; arithmetic on them is never modelled. -/
inductive PyFloat where
  | fin (q : ℚ)
  | posInf
  | negInf
  | nan
  deriving DecidableEq

inductive Val where
  | null
  | bool (b : Bool)
  | int (i : Int)
  | float (f : PyFloat)
  | str (s : String)
  | list (xs : List Val)
  | tuple (xs : List Val)
  | dict (kvs : List (String × Val))

namespace Val

mutual
def beq : Val → Val → Bool
  | .null, .null => true
  | .bool a, .bool b => a == b
  | .int a, .int b => a == b
  | .float a, .float b => a == b
  | .str a, .str b => a == b
  | .list a, .list b => beqList a b
  | .tuple a, .tuple b => beqList a b
  | .dict a, .dict b => beqItems a b
  | _, _ => false

def beqList : List Val → List Val → Bool
  | [], [] => true
  | x :: xs, y :: ys => beq x y && beqList xs ys
  | _, _ => false

def beqItems : List (String × Val) → List (String × Val) → Bool
  | [], [] => true
  | (j, x) :: xs, (k, y) :: ys => j == k && (beq x y && beqItems xs ys)
  | _, _ => false
end

mutual
theorem beq_iff (a b : Val) : beq a b = true ↔ a = b := by
  cases a <;> cases b <;> simp [beq, beqList_iff, beqItems_iff]

theorem beqList_iff (xs ys : List Val) : beqList xs ys = true ↔ xs = ys := by
  cases xs with
  | nil => cases ys <;> simp [beqList]
  | cons x xs => cases ys <;> simp [beqList, beq_iff x, beqList_iff xs]

theorem beqItems_iff (xs ys : List (String × Val)) : beqItems xs ys = true ↔ xs = ys := by
  cases xs with
  | nil => cases ys <;> simp [beqItems]
  | cons x xs =>
    obtain ⟨j, x⟩ := x
    cases ys <;> simp [beqItems, beq_iff x, beqItems_iff xs, Prod.ext_iff, and_assoc]
end

instance : DecidableEq Val := fun a b => decidable_of_iff _ (beq_iff a b)

/-- The value at a path of keys, through nested dictionaries. -/
def lookup : Val → List String → Option Val
  | v, [] => some v
  | .dict d, k :: ks => (get d k).bind fun v => v.lookup ks
  | _, _ :: _ => none

@[simp] theorem lookup_nil (v : Val) : v.lookup [] = some v := by cases v <;> rfl

@[simp] theorem lookup_dict (d : List (String × Val)) (k : String) (ks : List String) :
    (Val.dict d).lookup (k :: ks) = (get d k).bind fun v => v.lookup ks := rfl

@[simp] theorem lookup_null (k : String) (ks : List String) : Val.null.lookup (k :: ks) = none := rfl

mutual
/-- No dictionary in the value names a key twice, as every parsed document guarantees. -/
def UniqueKeys : Val → Prop
  | .list xs | .tuple xs => UniqueKeysList xs
  | .dict kvs => (kvs.map Prod.fst).Nodup ∧ UniqueKeysItems kvs
  | _ => True

def UniqueKeysList : List Val → Prop
  | [] => True
  | x :: xs => x.UniqueKeys ∧ UniqueKeysList xs

def UniqueKeysItems : List (String × Val) → Prop
  | [] => True
  | (_, x) :: xs => x.UniqueKeys ∧ UniqueKeysItems xs
end

theorem UniqueKeysItems.of_mem {kvs : List (String × Val)} (h : UniqueKeysItems kvs)
    {item : String × Val} (hItem : item ∈ kvs) : item.2.UniqueKeys := by
  induction kvs with
  | nil => cases hItem
  | cons head kvs ih =>
    rcases List.mem_cons.mp hItem with rfl | hTail
    · exact h.1
    · exact ih h.2 hTail

theorem UniqueKeys.of_get {kvs : List (String × Val)} (h : (Val.dict kvs).UniqueKeys) {k : String}
    {v : Val} (hv : get kvs k = some v) : v.UniqueKeys :=
  UniqueKeysItems.of_mem h.2 (get_mem hv)

end Val

/-!
## `dict.fromkeys`

`List.eraseDups` keeps the first of equal entries, in order, as `list(dict.fromkeys(xs))` does.
-/

section FromKeys

variable {α : Type u} [BEq α] [LawfulBEq α]

theorem nodup_eraseDups (xs : List α) : xs.eraseDups.Nodup := by
  induction h : xs.length using Nat.strongRecOn generalizing xs with
  | ind n ih =>
    cases xs with
    | nil => simp
    | cons x xs =>
      rw [List.eraseDups_cons, List.nodup_cons]
      refine ⟨fun hx => ?_, ih _ ?_ _ rfl⟩
      · simpa using (List.mem_filter.mp (List.mem_eraseDups.mp hx)).2
      · rw [← h, List.length_cons]
        exact Nat.lt_succ_of_le (List.length_filter_le _ xs)

theorem eraseDups_eq_self {xs : List α} (h : xs.Nodup) : xs.eraseDups = xs := by
  induction xs with
  | nil => rfl
  | cons x xs ih =>
    obtain ⟨hx, hxs⟩ := List.nodup_cons.mp h
    have hFilter : xs.filter (fun y => !y == x) = xs := by
      apply List.filter_eq_self.mpr
      intro y hy
      have hne : y ≠ x := fun hyx => hx (hyx ▸ hy)
      simpa using hne
    rw [List.eraseDups_cons, hFilter, ih hxs]

theorem eraseDups_eraseDups_append (xs ys : List α) :
    (xs.eraseDups ++ ys).eraseDups = (xs ++ ys).eraseDups := by
  have hRemove : ys.removeAll xs.eraseDups = ys.removeAll xs := by
    apply List.filter_congr
    intro y _
    simp [List.elem_eq_contains, List.mem_eraseDups]
  rw [List.eraseDups_append, List.eraseDups_append, eraseDups_eq_self (nodup_eraseDups xs), hRemove]

end FromKeys

end PyValue
