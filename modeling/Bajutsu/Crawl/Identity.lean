import Bajutsu.Crawl.Screen
import Bajutsu.Lib.JoinedText

/-!
# What a fingerprint tells apart

A screen's tokens are its identifiers with marks for their state, one to a line. Two screens have the same fingerprint
where they have the same tokens, which are the same states unless one identifier is spelled as another one with marks.
-/

namespace Bajutsu.Crawl.Identity

open JoinedText

def stateTraits : List String := ["notEnabled", "selected"]

section Reduce

variable (rt : Runtime) (elements : List Element)

def hash (parts : List String) : String := rt.sha1 ("\n".intercalate parts)

/-- An element's part of a structural signature. -/
def struct (stateless : Bool) (el : Element) : String :=
  ",".intercalate (if stateless then el.traits.filter (fun t => !stateTraits.contains t) else el.traits) ++ "@" ++
    frameBucket el

/-- `_reduce`: the hash and its kind. -/
def reduce (idToken : Element → String) (stateless : Bool) : String × String :=
  if 2 ≤ (ids elements).length then
    (hash rt (sorted ((elements.filter fun el => idOf el ≠ "").map idToken).dedup), "id")
  else
    (hash rt (sorted ((elements.filter fun el => hasTraitOf el actionableTraits).map (struct stateless))), "structural")

def screenIdentity : String :=
  let (value, kind) := reduce rt elements idOf true
  kind ++ ":" ++ value

theorem fingerprint_eq_reduce :
    fingerprint rt elements =
      ⟨(reduce rt elements fingerprintToken false).1, (reduce rt elements fingerprintToken false).2⟩ := by
  rw [fingerprint, reduce]
  split <;> rfl

end Reduce

/-! ## States and their tokens -/

/-- An identifier, and whether its control is disabled, is a filled input, and is selected. -/
abbrev State := String × Bool × Bool × Bool

def state (el : Element) : State :=
  (idOf el, !isEnabled el, hasTraitOf el inputTraits && !isEmpty el, el.traits.contains "selected")

def states (elements : List Element) : Finset State := ((elements.filter fun el => idOf el ≠ "").map state).toFinset

def marks (disabled filled selected : Bool) : String :=
  (if disabled then "!" else "") ++ (if filled then "=" else "") ++ if selected then "+" else ""

def State.token (s : State) : String := s.1 ++ marks s.2.1 s.2.2.1 s.2.2.2

/-- The identifiers of a snapshot are among the names. -/
def Named (names : Set String) (elements : List Element) : Prop := ∀ el ∈ elements, idOf el ≠ "" → idOf el ∈ names

/-- No trait holds a character that traits or lines are joined with. -/
def Spelled (elements : List Element) : Prop := ∀ el ∈ elements, ∀ t ∈ el.traits, ',' ∉ t.toList ∧ '\n' ∉ t.toList

/-- No name is another one followed by marks. -/
def Separated (names : Set String) : Prop :=
  ∀ id ∈ names, id ≠ "" → ∀ disabled filled selected,
    id ++ marks disabled filled selected ∈ names → marks disabled filled selected = ""

/-- Fingerprints identify the observable state of the snapshots with these identifiers. -/
structure Identifies (rt : Runtime) (names : Set String) : Prop where
  states : ∀ a b, Named names a → Named names b → 2 ≤ (ids a).length → 2 ≤ (ids b).length →
    (fingerprint rt a = fingerprint rt b ↔ states a = states b)
  permuted : ∀ a b : List Element, a.Perm b → fingerprint rt a = fingerprint rt b
  identity : ∀ a b, Named names a → Named names b → Spelled a → Spelled b →
    fingerprint rt a = fingerprint rt b → screenIdentity rt a = screenIdentity rt b

theorem fingerprintToken_eq (el : Element) : fingerprintToken el = (state el).token := by
  rw [fingerprintToken, State.token, marks, state, String.append_assoc, String.append_assoc]
  cases isEnabled el <;> rfl

theorem marks_inj : ∀ {d f s d' f' s' : Bool}, marks d f s = marks d' f' s' → d = d' ∧ f = f' ∧ s = s' := by
  decide

theorem marks_take : ∀ d f s : Bool, ∀ n < 4, ∃ d' f' s' : Bool,
    (marks d f s).toList.take n = (marks d' f' s').toList := by
  decide

theorem length_marks : ∀ d f s : Bool, (marks d f s).toList.length < 4 := by
  decide

theorem marks_of_start {d f s : Bool} {word rest : List Char} (h : (marks d f s).toList = word ++ rest) :
    ∃ d' f' s', word = (marks d' f' s').toList := by
  have hLength := length_marks d f s
  rw [h, List.length_append] at hLength
  obtain ⟨d', f', s', hTake⟩ := marks_take d f s word.length (by omega)
  rw [h, List.take_left'] at hTake
  · exact ⟨d', f', s', hTake⟩
  · rfl

theorem marks_free (d f s : Bool) : '\n' ∉ (marks d f s).toList := by
  revert d f s
  decide

section Tokens

variable {names : Set String} {s t : State}

theorem token_inj_of_longer (hSeparated : Separated names) (hs : s.1 ∈ names) (ht : t.1 ∈ names) (hsNe : s.1 ≠ "")
    {word : List Char} (hId : t.1.toList = s.1.toList ++ word)
    (hMarks : (marks s.2.1 s.2.2.1 s.2.2.2).toList = word ++ (marks t.2.1 t.2.2.1 t.2.2.2).toList) : s = t := by
  obtain ⟨d, f, x, hWord⟩ := marks_of_start hMarks
  have hName : t.1 = s.1 ++ marks d f x := by
    apply String.toList_inj.mp
    rw [hId, hWord, String.toList_append]
  have hNone := hSeparated s.1 hs hsNe d f x (hName ▸ ht)
  rw [hWord, hNone] at hMarks
  obtain ⟨hd, hf, hx⟩ := marks_inj (String.toList_inj.mp hMarks)
  rw [hNone, String.append_empty] at hName
  exact Prod.ext hName.symm (Prod.ext hd (Prod.ext hf hx))

theorem token_inj (hSeparated : Separated names) (hs : s.1 ∈ names) (ht : t.1 ∈ names) (hsNe : s.1 ≠ "")
    (htNe : t.1 ≠ "") (h : s.token = t.token) : s = t := by
  have hList := congrArg String.toList h
  rw [State.token, State.token, String.toList_append, String.toList_append] at hList
  obtain ⟨word, hId, hMarks⟩ | ⟨word, hId, hMarks⟩ := List.append_eq_append_iff.mp hList
  · exact token_inj_of_longer hSeparated hs ht hsNe hId hMarks
  · exact (token_inj_of_longer hSeparated ht hs htNe hId hMarks).symm

end Tokens

/-! ## Sorted lists -/

theorem sorted_eq_iff {xs ys : List String} : sorted xs = sorted ys ↔ xs.Perm ys := by
  constructor
  · intro h
    have hSorted : (sorted xs).Perm ys := h ▸ List.perm_insertionSort _ ys
    exact (List.perm_insertionSort _ xs).symm.trans hSorted
  · intro h
    apply List.Perm.eq_of_sortedLE
    · exact List.sortedLE_insertionSort
    · exact List.sortedLE_insertionSort
    · exact (List.perm_insertionSort _ xs).trans (h.trans (List.perm_insertionSort _ ys).symm)

theorem mem_sorted {xs : List String} {x : String} : x ∈ sorted xs ↔ x ∈ xs := List.mem_insertionSort _

theorem sorted_dedup_eq_iff {xs ys : List String} : sorted xs.dedup = sorted ys.dedup ↔ ∀ x, x ∈ xs ↔ x ∈ ys := by
  rw [sorted_eq_iff, List.perm_ext_iff_of_nodup (List.nodup_dedup xs) (List.nodup_dedup ys)]
  simp only [List.mem_dedup]

theorem perm_map_of_determined {α β γ : Type*} {f : α → β} {g : α → γ} {xs ys : List α}
    (hPerm : (xs.map f).Perm (ys.map f)) (h : ∀ x ∈ xs, ∀ y ∈ ys, f x = f y → g x = g y) :
    (xs.map g).Perm (ys.map g) := by
  induction xs generalizing ys with
  | nil =>
    rw [List.map_nil] at hPerm
    rw [List.map_eq_nil_iff.mp hPerm.nil_eq.symm]
  | cons x xs ih =>
    obtain ⟨y, hy, hEq⟩ := List.mem_map.mp (hPerm.mem_iff.mp List.mem_cons_self)
    obtain ⟨before, after, rfl⟩ := List.append_of_mem hy
    have hRest : (xs.map f).Perm ((before ++ after).map f) := by
      rw [List.map_cons, ← hEq] at hPerm
      apply List.Perm.cons_inv (a := f y)
      exact hPerm.trans (List.perm_middle.map f)
    have hGood : ∀ x ∈ xs, ∀ y ∈ before ++ after, f x = f y → g x = g y := by
      intro z hz w hw
      apply h z (List.mem_cons_of_mem _ hz) w
      rw [List.mem_append] at hw
      rw [List.mem_append, List.mem_cons]
      tauto
    rw [List.map_cons, h x List.mem_cons_self y hy hEq.symm]
    exact ((ih hRest hGood).cons (g y)).trans (List.perm_middle.map g).symm

theorem hash_eq_iff {rt : Runtime} (hHash : Function.Injective rt.sha1) {xs ys : List String}
    (hxs : ∀ x ∈ xs, x ≠ "" ∧ '\n' ∉ x.toList) (hys : ∀ y ∈ ys, y ≠ "" ∧ '\n' ∉ y.toList) :
    hash rt xs = hash rt ys ↔ xs = ys := by
  constructor
  · intro h
    exact join_injective_of_ne_empty hxs hys (hHash h)
  · rintro rfl
    rfl

/-! ## Screens with identifiers -/

def tokens (elements : List Element) : List String := (elements.filter fun el => idOf el ≠ "").map fingerprintToken

theorem mem_states {elements : List Element} {s : State} :
    s ∈ states elements ↔ ∃ el ∈ elements, idOf el ≠ "" ∧ state el = s := by
  simp [states, and_assoc]

theorem mem_tokens {elements : List Element} {t : String} :
    t ∈ tokens elements ↔ ∃ s ∈ states elements, s.token = t := by
  constructor
  · intro h
    obtain ⟨el, hEl, rfl⟩ := List.mem_map.mp h
    obtain ⟨hMem, hId⟩ := List.mem_filter.mp hEl
    exact ⟨state el, mem_states.mpr ⟨el, hMem, by simpa using hId, rfl⟩, (fingerprintToken_eq el).symm⟩
  · rintro ⟨s, hs, rfl⟩
    obtain ⟨el, hMem, hId, rfl⟩ := mem_states.mp hs
    rw [← fingerprintToken_eq]
    exact List.mem_map_of_mem (List.mem_filter.mpr ⟨hMem, by simpa using hId⟩)

section Identified

variable {rt : Runtime} {names : Set String} {a b : List Element}

theorem fingerprint_ids (h : 2 ≤ (ids a).length) : fingerprint rt a = ⟨hash rt (sorted (tokens a).dedup), "id"⟩ :=
  if_pos h

theorem state_named (hNamed : Named names a) {s : State} (hs : s ∈ states a) : s.1 ∈ names ∧ s.1 ≠ "" := by
  obtain ⟨el, hMem, hId, rfl⟩ := mem_states.mp hs
  exact ⟨hNamed el hMem hId, hId⟩

theorem states_subset (hSeparated : Separated names) (hA : Named names a) (hB : Named names b)
    (h : ∀ t, t ∈ tokens a → t ∈ tokens b) : states a ⊆ states b := by
  intro s hs
  obtain ⟨t, ht, hToken⟩ := mem_tokens.mp (h s.token (mem_tokens.mpr ⟨s, hs, rfl⟩))
  obtain ⟨hsName, hsNe⟩ := state_named hA hs
  obtain ⟨htName, htNe⟩ := state_named hB ht
  rwa [token_inj hSeparated hsName htName hsNe htNe hToken.symm]

theorem states_eq_of_tokens (hSeparated : Separated names) (hA : Named names a) (hB : Named names b)
    (h : ∀ t, t ∈ tokens a ↔ t ∈ tokens b) : states a = states b := by
  apply Finset.Subset.antisymm
  · exact states_subset hSeparated hA hB fun t => (h t).mp
  · exact states_subset hSeparated hB hA fun t => (h t).mpr

theorem tokens_plain (hLines : ∀ id ∈ names, '\n' ∉ id.toList) (hA : Named names a) :
    ∀ t ∈ sorted (tokens a).dedup, t ≠ "" ∧ '\n' ∉ t.toList := by
  intro t ht
  rw [mem_sorted, List.mem_dedup] at ht
  obtain ⟨s, hs, rfl⟩ := mem_tokens.mp ht
  obtain ⟨hName, hNe⟩ := state_named hA hs
  rw [State.token, String.toList_append, List.mem_append, not_or]
  refine ⟨?_, hLines s.1 hName, marks_free _ _ _⟩
  intro hEmpty
  have hList := congrArg String.toList hEmpty
  rw [String.toList_append] at hList
  exact hNe (String.toList_inj.mp (List.append_eq_nil_iff.mp hList).1)

theorem ids_fingerprints_eq_iff (hHash : Function.Injective rt.sha1) (hLines : ∀ id ∈ names, '\n' ∉ id.toList)
    (hA : Named names a) (hB : Named names b) (hTwoA : 2 ≤ (ids a).length) (hTwoB : 2 ≤ (ids b).length) :
    fingerprint rt a = fingerprint rt b ↔ ∀ t, t ∈ tokens a ↔ t ∈ tokens b := by
  rw [fingerprint_ids hTwoA, fingerprint_ids hTwoB, ← sorted_dedup_eq_iff,
    ← hash_eq_iff hHash (tokens_plain hLines hA) (tokens_plain hLines hB)]
  simp

theorem tokens_iff_of_states (h : states a = states b) (t : String) : t ∈ tokens a ↔ t ∈ tokens b := by
  rw [mem_tokens, mem_tokens, h]

theorem identity_ids (h : 2 ≤ (ids a).length) :
    screenIdentity rt a =
      "id:" ++ hash rt (sorted ((a.filter fun el => idOf el ≠ "").map idOf).dedup) := by
  rw [screenIdentity, reduce, if_pos h]
  rfl

theorem identity_of_states (hTwoA : 2 ≤ (ids a).length) (hTwoB : 2 ≤ (ids b).length) (h : states a = states b) :
    screenIdentity rt a = screenIdentity rt b := by
  have hIds : ∀ elements : List Element, ∀ x,
      x ∈ (elements.filter fun el => idOf el ≠ "").map idOf ↔ ∃ s ∈ states elements, s.1 = x := by
    intro elements x
    simp only [mem_states, List.mem_map, List.mem_filter, decide_eq_true_eq]
    constructor
    · rintro ⟨el, ⟨hMem, hId⟩, rfl⟩
      exact ⟨state el, ⟨el, hMem, hId, rfl⟩, rfl⟩
    · rintro ⟨s, ⟨el, hMem, hId, rfl⟩, rfl⟩
      exact ⟨el, ⟨hMem, hId⟩, rfl⟩
  rw [identity_ids hTwoA, identity_ids hTwoB, sorted_dedup_eq_iff.mpr]
  intro x
  rw [hIds, hIds, h]

end Identified

/-! ## Screens without identifiers -/

def controls (elements : List Element) : List Element := elements.filter fun el => hasTraitOf el actionableTraits

theorem frameBucket_free {c : Char} (hDigit : c.isDigit = false) (hMarks : c ∉ ['-', '(', ')', ',', ' ']) (el : Element) :
    c ∉ (frameBucket el).toList := by
  have hInt : ∀ i : Int, c ∉ i.repr.toList := by
    apply not_mem_int hDigit
    rintro rfl
    exact hMarks List.mem_cons_self
  simp only [List.mem_cons, List.not_mem_nil, or_false, not_or] at hMarks
  simp [frameBucket, String.toList_append, hInt, hMarks]

theorem toList_struct (stateless : Bool) (el : Element) :
    (struct stateless el).toList =
      (",".intercalate (if stateless then el.traits.filter (fun t => !stateTraits.contains t) else el.traits)).toList ++
        '@' :: (frameBucket el).toList := by
  rw [struct, String.toList_append, String.toList_append, List.append_assoc]
  rfl

theorem traits_ne_nil {elements : List Element} {el : Element} (h : el ∈ controls elements) : el.traits ≠ [] := by
  obtain ⟨-, hTrait⟩ := List.mem_filter.mp h
  intro hNil
  simp [hasTraitOf, hNil] at hTrait

theorem struct_determined {a b : List Element} (hA : Spelled a) (hB : Spelled b) {x y : Element} (hx : x ∈ controls a)
    (hy : y ∈ controls b) (h : struct false x = struct false y) : struct true x = struct true y := by
  have hList := congrArg String.toList h
  rw [toList_struct, toList_struct] at hList
  obtain ⟨hTraits, hFrame⟩ := last_part (frameBucket_free (by decide) (by decide) x)
    (frameBucket_free (by decide) (by decide) y) hList
  have hSame : x.traits = y.traits := by
    apply join_injective (traits_ne_nil hx) (traits_ne_nil hy)
    · exact fun t ht => (hA x (List.mem_filter.mp hx).1 t ht).1
    · exact fun t ht => (hB y (List.mem_filter.mp hy).1 t ht).1
    · exact String.toList_inj.mp hTraits
  rw [struct, struct, hSame, String.toList_inj.mp hFrame]

theorem struct_plain {a : List Element} (hA : Spelled a) :
    ∀ t ∈ sorted ((controls a).map (struct false)), t ≠ "" ∧ '\n' ∉ t.toList := by
  intro t ht
  obtain ⟨el, hEl, rfl⟩ := List.mem_map.mp (mem_sorted.mp ht)
  constructor
  · intro hEmpty
    have hList := congrArg String.toList hEmpty
    rw [toList_struct] at hList
    simp at hList
  · rw [toList_struct, List.mem_append, List.mem_cons, not_or, not_or]
    have hTraits : '\n' ∉ (",".intercalate el.traits).toList :=
      @not_mem_join ',' el.traits '\n' (by decide) fun t ht => (hA el (List.mem_filter.mp hEl).1 t ht).2
    exact ⟨hTraits, by decide, frameBucket_free (by decide) (by decide) el⟩

section Structural

variable {rt : Runtime} {a b : List Element}

theorem fingerprint_controls (h : ¬2 ≤ (ids a).length) :
    fingerprint rt a = ⟨hash rt (sorted ((controls a).map (struct false))), "structural"⟩ := by
  rw [fingerprint_eq_reduce, reduce, if_neg h]
  rfl

theorem identity_controls (h : ¬2 ≤ (ids a).length) :
    screenIdentity rt a = "structural:" ++ hash rt (sorted ((controls a).map (struct true))) := by
  rw [screenIdentity, reduce, if_neg h]
  rfl

theorem identity_of_controls (hHash : Function.Injective rt.sha1) (hA : Spelled a) (hB : Spelled b)
    (hFewA : ¬2 ≤ (ids a).length) (hFewB : ¬2 ≤ (ids b).length) (h : fingerprint rt a = fingerprint rt b) :
    screenIdentity rt a = screenIdentity rt b := by
  rw [fingerprint_controls hFewA, fingerprint_controls hFewB, Fingerprint.mk.injEq] at h
  have hPerm := sorted_eq_iff.mp ((hash_eq_iff hHash (struct_plain hA) (struct_plain hB)).mp h.1)
  have hStateless : ((controls a).map (struct true)).Perm ((controls b).map (struct true)) :=
    perm_map_of_determined hPerm fun x hx y hy => struct_determined hA hB hx hy
  rw [identity_controls hFewA, identity_controls hFewB, sorted_eq_iff.mpr hStateless]

end Structural

/-! ## Which identifiers are told apart -/

section Identifies

variable {rt : Runtime} {names : Set String}

theorem fingerprint_perm {a b : List Element} (h : a.Perm b) : fingerprint rt a = fingerprint rt b := by
  have hIds : (ids a).length = (ids b).length := (((h.map idOf).filter _).dedup).length_eq
  have hTokens : sorted (tokens a).dedup = sorted (tokens b).dedup :=
    sorted_eq_iff.mpr (((h.filter _).map fingerprintToken).dedup)
  have hControls : sorted ((controls a).map (struct false)) = sorted ((controls b).map (struct false)) :=
    sorted_eq_iff.mpr ((h.filter _).map (struct false))
  by_cases hTwo : 2 ≤ (ids a).length
  · rw [fingerprint_ids hTwo, fingerprint_ids (hIds ▸ hTwo), hTokens]
  · rw [fingerprint_controls hTwo, fingerprint_controls (hIds ▸ hTwo), hControls]

/-- A control in a state. -/
def control (id : String) (disabled filled selected : Bool) : Element where
  identifier := some id
  label := none
  traits := (if disabled then ["notEnabled"] else []) ++ (if filled then ["textField"] else []) ++
    if selected then ["selected"] else []
  value := if filled then some "typed" else none
  frame := (0, 0, 0, 0)
  nativeZ := none
  crossOriginFrame := false

theorem state_control (id : String) (d f s : Bool) : state (control id d f s) = (id, d, f, s) := by
  cases d <;> cases f <;> cases s <;>
    simp [state, control, idOf, isEnabled, hasTraitOf, inputTraits, isEmpty]

@[simp] theorem idOf_control (id : String) (d f s : Bool) : idOf (control id d f s) = id := rfl

theorem two_ids {a : List Element} {i j : String} (hi : i ∈ a.map idOf) (hj : j ∈ a.map idOf) (hiNe : i ≠ "")
    (hjNe : j ≠ "") (hNe : i ≠ j) : 2 ≤ (ids a).length := by
  have hSubset : ({i, j} : Finset String) ⊆ (ids a).toFinset := by
    intro x hx
    rw [List.mem_toFinset, ids, List.mem_dedup, List.mem_filter]
    obtain rfl | hx := Finset.mem_insert.mp hx
    · exact ⟨hi, by simpa using hiNe⟩
    · rw [Finset.mem_singleton.mp hx]
      exact ⟨hj, by simpa using hjNe⟩
  have hCard := Finset.card_le_card hSubset
  have hLength : (ids a).toFinset.card = (ids a).length := List.toFinset_card_of_nodup (List.nodup_dedup _)
  rwa [Finset.card_pair hNe, hLength] at hCard

/-- A control whose identifier is another one's with marks hides that one's state. -/
theorem marked_collides {id : String} {d f s : Bool} (hId : id ≠ "") (hMarks : marks d f s ≠ "") :
    let other := id ++ marks d f s
    let a := [control id false false false, control other false false false]
    let b := control id d f s :: a
    2 ≤ (ids a).length ∧ 2 ≤ (ids b).length ∧ fingerprint rt a = fingerprint rt b ∧ states a ≠ states b := by
  intro other a b
  have hOther : other ≠ "" := by
    intro hEmpty
    have hList := congrArg String.toList hEmpty
    rw [String.toList_append] at hList
    exact hId (String.toList_inj.mp (List.append_eq_nil_iff.mp hList).1)
  have hNe : id ≠ other := by
    intro hSame
    have hList := congrArg String.toList hSame
    rw [String.toList_append] at hList
    exact hMarks (String.toList_inj.mp (List.self_eq_append_right.mp hList))
  have hTwoA : 2 ≤ (ids a).length := two_ids (by simp [a]) (by simp [a]) hId hOther hNe
  have hTwoB : 2 ≤ (ids b).length := two_ids (by simp [b, a]) (by simp [b, a]) hId hOther hNe
  have hPlain : ∀ i : String, State.token (i, false, false, false) = i := by
    intro i
    rw [State.token]
    exact String.append_empty
  have hTokenA : tokens a = [id, other] := by
    simp [tokens, a, fingerprintToken_eq, state_control, hPlain, hId, hOther]
  have hTokenB : tokens b = [other, id, other] := by
    simp [tokens, b, a, fingerprintToken_eq, state_control, hPlain, hId, hOther]
    rfl
  refine ⟨hTwoA, hTwoB, ?_, ?_⟩
  · rw [fingerprint_ids hTwoA, fingerprint_ids hTwoB, sorted_dedup_eq_iff.mpr]
    intro t
    rw [hTokenA, hTokenB]
    simp only [List.mem_cons, List.not_mem_nil, or_false]
    tauto
  · intro hStates
    have hMem : (id, d, f, s) ∈ states a := by
      rw [hStates, mem_states]
      exact ⟨control id d f s, List.mem_cons_self, hId, state_control id d f s⟩
    obtain ⟨el, hEl, -, hState⟩ := mem_states.mp hMem
    simp only [a, List.mem_cons, List.not_mem_nil, or_false] at hEl
    obtain rfl | rfl := hEl
    · rw [state_control] at hState
      cases hState
      exact hMarks rfl
    · rw [state_control] at hState
      exact hNe (congrArg Prod.fst hState).symm

theorem separated_of_identifies (h : Identifies rt names) : Separated names := by
  intro id hName hId d f s hOther
  by_contra hMarks
  obtain ⟨hTwoA, hTwoB, hSame, hStates⟩ := @marked_collides rt id d f s hId hMarks
  have hNamedA : Named names [control id false false false, control (id ++ marks d f s) false false false] := by
    simp [Named, hName, hOther]
  have hNamedB : Named names
      [control id d f s, control id false false false, control (id ++ marks d f s) false false false] := by
    simp [Named, hName, hOther]
  exact hStates ((h.states _ _ hNamedA hNamedB hTwoA hTwoB).mp hSame)

/-- Where no identifier breaks a line, fingerprints identify the state just where no identifier is another one with
marks. -/
theorem fingerprints_identify_iff (hHash : Function.Injective rt.sha1) (hLines : ∀ id ∈ names, '\n' ∉ id.toList) :
    Identifies rt names ↔ Separated names := by
  constructor
  · exact separated_of_identifies
  · intro hSeparated
    have hStates : ∀ a b, Named names a → Named names b → 2 ≤ (ids a).length → 2 ≤ (ids b).length →
        (fingerprint rt a = fingerprint rt b ↔ states a = states b) := by
      intro a b hA hB hTwoA hTwoB
      rw [ids_fingerprints_eq_iff hHash hLines hA hB hTwoA hTwoB]
      exact ⟨states_eq_of_tokens hSeparated hA hB, tokens_iff_of_states⟩
    refine ⟨hStates, fun a b => fingerprint_perm, ?_⟩
    intro a b hA hB hSpelledA hSpelledB hSame
    by_cases hTwoA : 2 ≤ (ids a).length
    · by_cases hTwoB : 2 ≤ (ids b).length
      · exact identity_of_states hTwoA hTwoB ((hStates a b hA hB hTwoA hTwoB).mp hSame)
      · rw [fingerprint_ids hTwoA, fingerprint_controls hTwoB] at hSame
        simp at hSame
    · by_cases hTwoB : 2 ≤ (ids b).length
      · rw [fingerprint_controls hTwoA, fingerprint_ids hTwoB] at hSame
        simp at hSame
      · exact identity_of_controls hHash hSpelledA hSpelledB hTwoA hTwoB hSame

end Identifies

/-- A screen with a home tab and a settings tab. -/
theorem tabs_identified : Identifies ⟨id, id⟩ {"home", "settings"} := by
  apply (fingerprints_identify_iff Function.injective_id ?_).mpr
  · intro name hName _ d f s
    obtain rfl | rfl := hName
    · revert d f s
      decide
    · revert d f s
      decide
  · intro name hName
    obtain rfl | rfl := hName <;> decide

/-- Beside an enabled control that is named as it is marked, a disabled control adds nothing to the fingerprint. -/
theorem marked_submit_collides : ¬∀ rt : Runtime, Function.Injective rt.sha1 → ∀ a b : List Element,
    2 ≤ (ids a).length → 2 ≤ (ids b).length → (fingerprint rt a = fingerprint rt b ↔ states a = states b) := by
  intro h
  obtain ⟨hTwoA, hTwoB, hSame, hStates⟩ := @marked_collides ⟨id, id⟩ "submit" true false false (by decide) (by decide)
  exact hStates ((h ⟨id, id⟩ Function.injective_id _ _ hTwoA hTwoB).mp hSame)

end Bajutsu.Crawl.Identity
