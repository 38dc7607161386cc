import Bajutsu.Lib.PyValue

/-!
# Values that pass through JSON

What is read back from JSON text is the value that was written, with each tuple as a list. A comprehension over items
keeps the last value of each key.
-/

namespace PyValue

section Comprehension

variable {κ β : Type*} [DecidableEq κ]

/-- `{k: v for k, v in items}`. -/
def dictOf (items : List (κ × β)) : List (κ × β) := items.foldl (fun d item => set d item.1 item.2) []

theorem nodup_set {d : List (κ × β)} (h : (d.map Prod.fst).Nodup) (k : κ) (b : β) :
    ((set d k b).map Prod.fst).Nodup := by
  rw [map_fst_set]
  split
  · exact h
  · rename_i hNew
    exact h.append (List.nodup_singleton k) (by simpa using hNew)

theorem nodup_foldl_set (items : List (κ × β)) {d : List (κ × β)} (h : (d.map Prod.fst).Nodup) :
    ((items.foldl (fun d item => set d item.1 item.2) d).map Prod.fst).Nodup := by
  induction items generalizing d with
  | nil => exact h
  | cons item items ih => exact ih (nodup_set h item.1 item.2)

theorem nodup_dictOf (items : List (κ × β)) : ((dictOf items).map Prod.fst).Nodup :=
  nodup_foldl_set items List.nodup_nil

theorem foldl_set_eq_append {items d : List (κ × β)} (h : ((d ++ items).map Prod.fst).Nodup) :
    items.foldl (fun d item => set d item.1 item.2) d = d ++ items := by
  induction items generalizing d with
  | nil => simp
  | cons item items ih =>
    have hNew : get d item.1 = none := by
      rw [← Option.not_isSome_iff_eq_none, get_isSome_iff]
      intro hOld
      rw [List.map_append, List.map_cons] at h
      exact (List.nodup_append.mp h).2.2 item.1 hOld item.1 List.mem_cons_self rfl
    rw [List.foldl_cons, set_of_get_none hNew, ih (by simpa using h)]
    simp

theorem dictOf_eq_self {items : List (κ × β)} (h : (items.map Prod.fst).Nodup) : dictOf items = items :=
  foldl_set_eq_append (by simpa using h)

theorem get_perm {items more : List (κ × β)} (hPerm : items.Perm more) (h : (more.map Prod.fst).Nodup) (k : κ) :
    get items k = get more k := by
  have hItems : (items.map Prod.fst).Nodup := (hPerm.map Prod.fst).nodup_iff.mpr h
  apply Option.ext
  intro b
  constructor
  · intro hGet
    exact get_of_mem h (hPerm.mem_iff.mp (get_mem hGet))
  · intro hGet
    exact get_of_mem hItems (hPerm.mem_iff.mpr (get_mem hGet))

/-- A dictionary that is built from the items of another in any order has its entries. -/
theorem get_dictOf_perm {items d : List (κ × β)} (hPerm : items.Perm d) (h : (d.map Prod.fst).Nodup) (k : κ) :
    get (dictOf items) k = get d k := by
  rw [dictOf_eq_self ((hPerm.map Prod.fst).nodup_iff.mpr h)]
  exact get_perm hPerm h k

theorem dictOf_snoc (items : List (κ × β)) (k : κ) (b : β) : dictOf (items ++ [(k, b)]) = set (dictOf items) k b := by
  rw [dictOf, List.foldl_append]
  rfl

/-- Of the items with one key, the last is the one that counts. -/
theorem get_dictOf (items : List (κ × β)) (k : κ) :
    get (dictOf items) k = ((items.filter fun item => item.1 = k).getLast?).map Prod.snd := by
  induction items using List.reverseRecOn with
  | nil => rfl
  | append_singleton items item ih =>
    obtain ⟨j, b⟩ := item
    rw [dictOf_snoc, List.filter_append]
    by_cases hj : j = k
    · subst hj
      rw [get_set_self, List.filter_cons_of_pos (by simp), List.filter_nil, List.getLast?_append]
      rfl
    · rw [get_set_ne _ _ (Ne.symm hj), ih, List.filter_cons_of_neg (by simpa using hj), List.filter_nil, List.append_nil]

theorem mem_of_get_dictOf {items : List (κ × β)} {k : κ} {b : β} (h : get (dictOf items) k = some b) :
    (k, b) ∈ items := by
  rw [get_dictOf, Option.map_eq_some_iff] at h
  obtain ⟨⟨j, b'⟩, hLast, rfl⟩ := h
  have hMem := List.mem_filter.mp (List.mem_of_getLast? hLast)
  rw [decide_eq_true_eq] at hMem
  obtain ⟨hMem, rfl⟩ := hMem
  exact hMem

theorem get_dictOf_isSome {items : List (κ × β)} {k : κ} : (get (dictOf items) k).isSome ↔ k ∈ items.map Prod.fst := by
  rw [get_dictOf, Option.isSome_map, List.getLast?_isSome, Ne, List.filter_eq_nil_iff]
  simp

theorem set_map {γ : Type*} (f : β → γ) (d : List (κ × β)) (k : κ) (b : β) :
    set (d.map fun item => (item.1, f item.2)) k (f b) = (set d k b).map fun item => (item.1, f item.2) := by
  induction d with
  | nil => rfl
  | cons item d ih =>
    rw [List.map_cons, set, set]
    split
    · rfl
    · rw [ih, List.map_cons]

theorem dictOf_map {γ : Type*} (f : β → γ) (items : List (κ × β)) :
    dictOf (items.map fun item => (item.1, f item.2)) = (dictOf items).map fun item => (item.1, f item.2) := by
  induction items using List.reverseRecOn with
  | nil => rfl
  | append_singleton items item ih =>
    rw [List.map_append, List.map_singleton, dictOf_snoc, ih, set_map, dictOf_snoc]

theorem mem_of_mem_dictOf {items : List (κ × β)} {item : κ × β} (h : item ∈ dictOf items) : item ∈ items :=
  mem_of_get_dictOf (get_of_mem (nodup_dictOf items) h)

theorem get_map {γ : Type*} (f : β → γ) (d : List (κ × β)) (k : κ) :
    get (d.map fun item => (item.1, f item.2)) k = (get d k).map f := by
  induction d with
  | nil => rfl
  | cons item d ih =>
    rw [List.map_cons, get, get]
    split
    · rfl
    · exact ih

end Comprehension

theorem mapM_eq_some {α β : Type*} {f : α → Option β} {g : α → β} {xs : List α} (h : ∀ x ∈ xs, f x = some (g x)) :
    xs.mapM f = some (xs.map g) := by
  induction xs with
  | nil => rfl
  | cons x xs ih =>
    obtain ⟨hx, h⟩ := List.forall_mem_cons.mp h
    rw [List.mapM_cons, hx, ih h]
    rfl

mutual
/-- `json.loads(json.dumps(v))`. -/
def jsonRound : Val → Val
  | .list xs | .tuple xs => .list (jsonRoundList xs)
  | .dict kvs => .dict (jsonRoundItems kvs)
  | v => v

def jsonRoundList : List Val → List Val
  | [] => []
  | x :: xs => jsonRound x :: jsonRoundList xs

def jsonRoundItems : List (String × Val) → List (String × Val)
  | [] => []
  | (k, x) :: xs => (k, jsonRound x) :: jsonRoundItems xs
end

theorem jsonRoundItems_eq_map (kvs : List (String × Val)) :
    jsonRoundItems kvs = kvs.map fun item => (item.1, jsonRound item.2) := by
  induction kvs with
  | nil => rfl
  | cons item kvs ih => rw [jsonRoundItems, ih, List.map_cons]

theorem jsonRound_list {xs : List Val} (h : ∀ x ∈ xs, jsonRound x = x) : jsonRound (.list xs) = .list xs := by
  have hAll : jsonRoundList xs = xs := by
    induction xs with
    | nil => rfl
    | cons x xs ih =>
      obtain ⟨hx, h⟩ := List.forall_mem_cons.mp h
      rw [jsonRoundList, hx, ih h]
  rw [jsonRound, hAll]

theorem jsonRound_dict {kvs : List (String × Val)} (h : ∀ item ∈ kvs, jsonRound item.2 = item.2) :
    jsonRound (.dict kvs) = .dict kvs := by
  have hAll : jsonRoundItems kvs = kvs := by
    induction kvs with
    | nil => rfl
    | cons item kvs ih =>
      obtain ⟨hx, h⟩ := List.forall_mem_cons.mp h
      rw [jsonRoundItems, hx, ih h]
  rw [jsonRound, hAll]

end PyValue
