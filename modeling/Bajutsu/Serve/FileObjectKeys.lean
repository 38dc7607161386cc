import Bajutsu.Lib.History
import Bajutsu.Lib.PyText
import Bajutsu.Serve.FileObjectStore

/-!
# Keys and files

A key that is accepted names one file, by the names between its slashes. The same file can be found under
another directory of the store that it lies in; a key for it there is refused.
-/

namespace Bajutsu.Serve

open FileSystem

/-! ## Names between slashes -/

theorem joined_segments (text : Text) : joined (segments text) = text := List.intercalate_splitOn '/'

theorem segments_joined {names : List Name} (h : ∀ name ∈ names, '/' ∉ name) (hNe : names ≠ []) :
    segments (joined names) = names := List.splitOn_intercalate '/' h hNe

theorem segments_ne_nil (text : Text) : segments text ≠ [] := List.splitOn_ne_nil '/' text

theorem segments_slash (a b : Text) : segments (a ++ '/' :: b) = segments a ++ segments b :=
  List.splitOn_append_cons_self a b

theorem segments_of_no_slash {name : Name} (h : '/' ∉ name) : segments name = [name] :=
  List.splitOn_eq_singleton h

theorem joined_cons {name : Name} {names : List Name} (h : names ≠ []) :
    joined (name :: names) = name ++ '/' :: joined names := by
  rw [joined, List.intercalate_cons_of_ne_nil h]
  simp [joined]

theorem joined_singleton (name : Name) : joined [name] = name := List.intercalate_singleton ..

theorem joined_append {names names' : List Name} (h : names ≠ []) (h' : names' ≠ []) :
    joined (names ++ names') = joined names ++ '/' :: joined names' := by
  induction names with
  | nil => exact absurd rfl h
  | cons name names ih =>
    rcases names with _ | ⟨other, names⟩
    · change joined (name :: names') = joined [name] ++ '/' :: joined names'
      rw [joined_cons h', joined_singleton]
    · change joined (name :: (other :: names ++ names')) = _
      rw [joined_cons (List.append_ne_nil_of_left_ne_nil (List.cons_ne_nil _ _) _), ih (List.cons_ne_nil _ _),
        joined_cons (List.cons_ne_nil _ _), List.append_assoc, List.cons_append]

theorem no_slash_of_mem_segments {text : Text} {name : Name} (h : name ∈ segments text) : '/' ∉ name := by
  induction text generalizing name with
  | nil =>
    have hNil : name = [] := by simpa [segments] using h
    rw [hNil]
    exact List.not_mem_nil
  | cons c text ih =>
    rw [segments, List.splitOn_cons_eq_if_modifyHead] at h
    split at h
    · rcases List.mem_cons.mp h with rfl | h
      · exact List.not_mem_nil
      · exact ih h
    · rename_i hc
      rcases hSegments : text.splitOn '/' with _ | ⟨first, rest⟩
      · exact absurd hSegments (List.splitOn_ne_nil '/' text)
      · rw [hSegments] at h
        have hMem (other : Name) (hOther : other ∈ first :: rest) : '/' ∉ other :=
          ih (by rw [segments, hSegments]; exact hOther)
        rcases List.mem_cons.mp h with rfl | h
        · intro hSlash
          rcases List.mem_cons.mp hSlash with hEq | hSlash
          · exact hc (beq_iff_eq.mpr hEq.symm)
          · exact hMem first List.mem_cons_self hSlash
        · exact hMem name (List.mem_cons_of_mem _ h)

/-- A name without a backslash is still between slashes where the backslashes are slashes. -/
theorem mem_segments_map {f : Char → Char} (hSlash : f '/' = '/') {text : Text} {name : Name}
    (h : name ∈ segments text) (hName : name.map f = name) : name ∈ segments (text.map f) := by
  obtain ⟨before, after, hSegments⟩ := List.append_of_mem h
  have hFree := no_slash_of_mem_segments h
  have hText := joined_segments text
  rw [hSegments] at hText
  rcases List.eq_nil_or_concat before with rfl | ⟨before, last, rfl⟩
  · rcases after with _ | ⟨next, after⟩
    · rw [← hText]
      simp [joined, hName, segments_of_no_slash hFree]
    · rw [← hText, List.nil_append, joined_cons (by simp), List.map_append, List.map_cons, hSlash, hName,
        segments_slash, segments_of_no_slash hFree]
      simp
  · rw [joined_append (by simp) (by simp)] at hText
    rw [← hText, List.map_append, List.map_cons, hSlash, segments_slash]
    apply List.mem_append_right
    rcases after with _ | ⟨next, after⟩
    · simp [joined, hName, segments_of_no_slash hFree]
    · rw [joined_cons (by simp), List.map_append, List.map_cons, hSlash, hName, segments_slash,
        segments_of_no_slash hFree]
      simp

/-- The names of a text that a joined path starts with are the path's first ones, the last one in part. -/
theorem segments_of_isPrefix {text : Text} {names : List Name} (hNames : ∀ name ∈ names, '/' ∉ name)
    (hNe : names ≠ []) (h : text <+: joined names) :
    ∃ name rest, names = (segments text).dropLast ++ name :: rest := by
  have hSegments (segs : List Name) (hFree : ∀ seg ∈ segs, '/' ∉ seg) (hNe' : segs ≠ []) :
      ∀ names : List Name, (∀ name ∈ names, '/' ∉ name) → names ≠ [] → joined segs <+: joined names →
        ∃ name rest, names = segs.dropLast ++ name :: rest := by
    induction segs with
    | nil => exact absurd rfl hNe'
    | cons seg segs ih =>
      intro names hNames hNe hLe
      rcases names with _ | ⟨name, names⟩
      · exact absurd rfl hNe
      · rcases segs with _ | ⟨next, segs⟩
        · exact ⟨name, names, rfl⟩
        · have hNext : next :: segs ≠ [] := List.cons_ne_nil _ _
          rw [joined_cons hNext] at hLe
          rcases names with _ | ⟨other, names⟩
          · have hSlash : '/' ∈ joined [name] := hLe.subset (by simp)
            exact absurd (by simpa [joined] using hSlash) (hNames name List.mem_cons_self)
          · have hOther : other :: names ≠ [] := List.cons_ne_nil _ _
            rw [joined_cons hOther] at hLe
            obtain ⟨tail, hTail⟩ := hLe
            rw [List.append_assoc, List.cons_append] at hTail
            have hSeg : ∀ c ∈ seg, c ≠ '/' := fun c hc hEq => hFree seg List.mem_cons_self (hEq ▸ hc)
            have hName : ∀ c ∈ name, c ≠ '/' := fun c hc hEq => hNames name List.mem_cons_self (hEq ▸ hc)
            obtain ⟨rfl, -, hRest⟩ := @History.first_unique _ (· ≠ '/') _ _ _ _ _ _ hTail hSeg hName
              (not_not_intro rfl) (not_not_intro rfl)
            obtain ⟨name', rest, hEq⟩ := ih (fun s hs => hFree s (List.mem_cons_of_mem _ hs)) hNext
              (other :: names) (fun n hn => hNames n (List.mem_cons_of_mem _ hn)) hOther ⟨tail, hRest⟩
            exact ⟨name', rest, by rw [hEq]; rfl⟩
  refine hSegments (segments text) (fun _ => no_slash_of_mem_segments) (segments_ne_nil text) names hNames hNe ?_
  rwa [joined_segments]

theorem joined_inj {names names' : List Name} (h : ∀ name ∈ names, '/' ∉ name) (hNe : names ≠ [])
    (h' : ∀ name ∈ names', '/' ∉ name) (hNe' : names' ≠ []) (hEq : joined names = joined names') :
    names = names' := by
  rw [← segments_joined h hNe, hEq, segments_joined h' hNe']

/-! ## Accepted keys -/

theorem proper_of_valid {key : Text} (hValid : validRelativeKey key = true) (hCanonical : canonical key = true)
    {name : Name} (h : name ∈ segments key) : ProperName name := by
  have hSeg := List.all_eq_true.mp hCanonical name h
  simp only [Bool.and_eq_true, decide_eq_true_eq] at hSeg
  refine ⟨hSeg.1.1, no_slash_of_mem_segments h, hSeg.1.2, ?_⟩
  rintro rfl
  simp only [validRelativeKey, Bool.and_eq_true, decide_eq_true_eq] at hValid
  exact hValid.1.2 (mem_segments_map (by decide) h (by decide))

theorem resolve_proper {base : Path} {rel : Text} (h : ∀ name ∈ segments rel, ProperName name) :
    resolve base rel = base ++ segments rel := by
  have hWalk (names : List Name) (hNames : ∀ name ∈ names, ProperName name) :
      ∀ dir : Path, names.foldl walkName dir = dir ++ names := by
    induction names with
    | nil => exact fun dir => (List.append_nil dir).symm
    | cons name names ih =>
      intro dir
      obtain ⟨hNe, -, hDot, hUp⟩ := hNames name List.mem_cons_self
      rw [List.foldl_cons, walkName, if_neg (not_or.mpr ⟨hNe, hDot⟩), if_neg hUp,
        ih (fun n hn => hNames n (List.mem_cons_of_mem _ hn)), List.append_assoc]
      rfl
  rw [resolve, hWalk _ h, if_neg]
  intro hSlash
  obtain ⟨rest, rfl⟩ := List.head?_eq_some_iff.mp hSlash
  have hEmpty : [] ∈ segments ('/' :: rest) := by
    rw [← List.nil_append ('/' :: rest), segments_slash]
    exact List.mem_append_left _ (by simp [segments])
  exact (h [] hEmpty).1 rfl

namespace Store

variable {store : Store}

theorem located_mem (key : Text) : store.located key ∈ ([], store.root) :: store.mounts := by
  rw [located]
  cases hFind : store.mounts.find? fun mount => mount.1.isPrefixOf key with
  | none => exact List.mem_cons_self
  | some mount => exact List.mem_cons_of_mem _ (List.mem_of_find?_eq_some hFind)

theorem located_mem_dirs (key : Text) : (store.located key).2 ∈ store.dirs :=
  List.mem_map.mpr ⟨_, store.located_mem key, rfl⟩

theorem located_isPrefix (key : Text) : (store.located key).1 <+: key := by
  rw [located]
  cases hFind : store.mounts.find? fun mount => mount.1.isPrefixOf key with
  | none => exact List.nil_prefix
  | some mount =>
    have hLe := List.find?_some hFind
    exact List.isPrefixOf_iff_prefix.mp hLe

theorem exists_of_mem {mount : Text × Path} (hMount : mount ∈ store.mounts) : ∃ front, mount.1 = front ++ ['/'] := by
  have hValid := store.valid mount hMount
  simp only [validMountPrefix, Bool.and_eq_true, decide_eq_true_eq] at hValid
  exact List.getLast?_eq_some_iff.mp hValid.1

theorem eq_of_isPrefix {mount other : Text × Path} (hMount : mount ∈ store.mounts) (hOther : other ∈ store.mounts)
    {key : Text} (h : mount.1 <+: key) (h' : other.1 <+: key) : mount = other := by
  by_contra hNe
  have hSymm : Std.Symm fun a b : Text × Path => ¬a.1 <+: b.1 ∧ ¬b.1 <+: a.1 := ⟨fun _ _ h => h.symm⟩
  obtain ⟨hLeft, hRight⟩ := store.apart.forall hMount hOther hNe
  exact (List.prefix_or_prefix_of_prefix h h').elim hLeft hRight

theorem located_of_mount {mount : Text × Path} (hMount : mount ∈ store.mounts) {key : Text}
    (h : mount.1 <+: key) : store.located key = mount := by
  rw [located]
  cases hFind : store.mounts.find? fun mount => mount.1.isPrefixOf key with
  | none => exact absurd (List.isPrefixOf_iff_prefix.mpr h) (List.find?_eq_none.mp hFind mount hMount)
  | some other =>
    have hLe := List.find?_some hFind
    exact eq_of_isPrefix (List.mem_of_find?_eq_some hFind) hMount (List.isPrefixOf_iff_prefix.mp hLe) h

theorem located_of_none {key : Text} (h : ∀ mount ∈ store.mounts, ¬mount.1 <+: key) :
    store.located key = ([], store.root) := by
  rw [located, List.find?_eq_none.mpr]
  · rfl
  · exact fun mount hMount hLe => h mount hMount (List.isPrefixOf_iff_prefix.mp hLe)

theorem located_cases (key : Text) :
    (store.located key ∈ store.mounts) ∨
      (store.located key = ([], store.root) ∧ ∀ mount ∈ store.mounts, ¬mount.1 <+: key) := by
  by_cases h : ∃ mount ∈ store.mounts, mount.1 <+: key
  · obtain ⟨mount, hMount, hLe⟩ := h
    rw [located_of_mount hMount hLe]
    exact .inl hMount
  · have hNone : ∀ mount ∈ store.mounts, ¬mount.1 <+: key := fun mount hMount hLe => h ⟨mount, hMount, hLe⟩
    exact .inr ⟨located_of_none hNone, hNone⟩

/-- The part of a key that names its file in the key's directory. -/
def relOf (store : Store) (key : Text) : Text := key.drop (store.located key).1.length

theorem located_append_relOf (key : Text) : (store.located key).1 ++ store.relOf key = key :=
  List.prefix_iff_eq_append.mp (store.located_isPrefix key)

theorem relOf_subset {key : Text} : ∀ name ∈ segments (store.relOf key), name ∈ segments key := by
  intro name hName
  have hKey := store.located_append_relOf key
  rcases store.located_cases key with hMount | ⟨hRoot, -⟩
  · obtain ⟨front, hFront⟩ := exists_of_mem hMount
    rw [← hKey, hFront, List.append_assoc, List.singleton_append, segments_slash]
    exact List.mem_append_right _ hName
  · rw [hRoot, List.nil_append] at hKey
    rwa [← hKey]

/-- An accepted key names the file its names lead to, and no other directory of the store is on the way. -/
theorem pathFor_eq_some {key : Text} {p : Path} (h : store.pathFor key = some p) :
    (∀ name ∈ segments key, ProperName name) ∧ canonical key = true ∧ validRelativeKey key = true ∧
      p = (store.located key).2 ++ segments (store.relOf key) ∧
      ∀ other ∈ store.dirs, other <+: p → other <+: (store.located key).2 := by
  rw [pathFor] at h
  split at h
  · cases h
  · rename_i hAccepted
    simp only [Bool.or_eq_true, Bool.not_eq_eq_eq_not, Bool.not_true, not_or, Bool.not_eq_false] at hAccepted
    obtain ⟨hValid, hCanonical⟩ := hAccepted
    have hProper := fun name => @proper_of_valid key hValid hCanonical name
    have hResolve : resolve (store.located key).2 (key.drop (store.located key).1.length) =
        (store.located key).2 ++ segments (store.relOf key) :=
      resolve_proper fun name hName => hProper name (relOf_subset name hName)
    simp only [hResolve] at h
    split at h
    · cases h
    · split at h
      · cases h
      · rename_i hOther
        obtain rfl := Option.some.inj h
        refine ⟨hProper, hCanonical, hValid, rfl, fun other hMem hLe => ?_⟩
        by_cases hEq : other = (store.located key).2
        · rw [hEq]
        · by_contra hOut
          refine hOther (List.any_eq_true.mpr ⟨other, hMem, ?_⟩)
          simp only [Bool.and_eq_true, decide_eq_true_eq, Bool.not_eq_true', ← Bool.not_eq_true,
            List.isPrefixOf_iff_prefix]
          exact ⟨⟨hEq, hLe⟩, hOut⟩

theorem located_mem_keyed {key : Text} (hCanonical : canonical key = true) : store.located key ∈ store.keyed := by
  refine List.mem_filter.mpr ⟨store.located_mem key, ?_⟩
  have hKey := store.located_append_relOf key
  rcases store.located_cases key with hMount | ⟨hRoot, -⟩
  · obtain ⟨front, hFront⟩ := exists_of_mem hMount
    rw [← hKey, hFront, List.append_assoc, List.singleton_append, canonical, segments_slash, List.all_append,
      Bool.and_eq_true] at hCanonical
    rw [hFront, List.append_assoc, List.singleton_append, canonical, segments_slash, List.all_append, hCanonical.1]
    rfl
  · rw [hRoot]
    rfl

theorem pathFor_injective (hNodup : (store.keyed.map Prod.snd).Nodup) {key key' : Text} {p : Path}
    (h : store.pathFor key = some p) (h' : store.pathFor key' = some p) : key = key' := by
  obtain ⟨-, hCanonical, -, hPath, hConfined⟩ := pathFor_eq_some h
  obtain ⟨-, hCanonical', -, hPath', hConfined'⟩ := pathFor_eq_some h'
  have hLe : (store.located key).2 <+: (store.located key').2 :=
    hConfined' _ (store.located_mem_dirs key) ⟨_, hPath.symm⟩
  have hGe : (store.located key').2 <+: (store.located key).2 :=
    hConfined _ (store.located_mem_dirs key') ⟨_, hPath'.symm⟩
  have hDir : (store.located key).2 = (store.located key').2 := hLe.eq_of_length (le_antisymm hLe.length_le hGe.length_le)
  have hLocated : store.located key = store.located key' :=
    List.inj_on_of_nodup_map hNodup (located_mem_keyed hCanonical) (located_mem_keyed hCanonical') hDir
  have hRel : segments (store.relOf key) = segments (store.relOf key') := by
    apply List.append_cancel_left
    rw [← hPath, hDir, ← hPath']
  rw [← store.located_append_relOf key, ← store.located_append_relOf key', hLocated, ← joined_segments (store.relOf key),
    hRel, joined_segments]

/-! ## Directories that share a file -/

/-- A name longer than every one on the way to a directory of the store. -/
def freshName (store : Store) : Name := List.replicate ((store.dirs.flatten.map List.length).sum + 3) 'x'

theorem freshName_notMem {dir : Path} (hDir : dir ∈ store.dirs) : store.freshName ∉ dir := by
  intro hMem
  have hLe := List.single_le_sum (by simp) _
    (List.mem_map_of_mem (f := List.length) (List.mem_flatten.mpr ⟨dir, hDir, hMem⟩))
  rw [freshName, List.length_replicate] at hLe
  omega

theorem eq_x_of_mem_freshName {c : Char} (h : c ∈ store.freshName) : c = 'x' := List.eq_of_mem_replicate h

theorem freshName_eq : ∃ rest, store.freshName = 'x' :: 'x' :: 'x' :: rest := ⟨_, rfl⟩

theorem slash_notMem_freshName : '/' ∉ store.freshName := fun h => absurd (eq_x_of_mem_freshName h) (by decide)

theorem map_freshName {f : Char → Char} (h : f 'x' = 'x') : store.freshName.map f = store.freshName := by
  rw [freshName, List.map_replicate, h]

theorem proper_freshName : ProperName store.freshName := by
  refine ⟨?_, slash_notMem_freshName, ?_, ?_⟩ <;>
    obtain ⟨rest, hEq⟩ := store.freshName_eq <;> rw [hEq] <;> simp

theorem canonical_freshName : canonical store.freshName = true := by
  obtain ⟨rest, hEq⟩ := store.freshName_eq
  rw [canonical, segments_of_no_slash slash_notMem_freshName, hEq]
  rfl

theorem valid_freshName : validRelativeKey store.freshName = true := by
  rw [validRelativeKey, map_freshName (by decide), segments_of_no_slash slash_notMem_freshName]
  obtain ⟨rest, hEq⟩ := store.freshName_eq
  have hNul : '\x00' ∉ store.freshName := fun h => absurd (eq_x_of_mem_freshName h) (by decide)
  simp [hEq] at hNul ⊢
  exact hNul

theorem valid_append_freshName {front : Text} (hFront : validRelativeKey front = true) :
    validRelativeKey (front ++ '/' :: store.freshName) = true := by
  have hNul : '\x00' ∉ store.freshName := fun h => absurd (eq_x_of_mem_freshName h) (by decide)
  have hUp : "..".toList ≠ store.freshName := store.proper_freshName.2.2.2.symm
  simp only [validRelativeKey, Bool.and_eq_true, decide_eq_true_eq] at hFront ⊢
  obtain ⟨⟨⟨⟨hNe, hFrontNul⟩, hHead⟩, hFrontUp⟩, hSlashed⟩ := hFront
  rw [List.map_append, List.map_cons, map_freshName (by decide), if_neg (by decide), segments_slash,
    segments_of_no_slash slash_notMem_freshName, List.head?_append_of_ne_nil _ hNe,
    List.head?_append_of_ne_nil _ (fun hNil => hNe (List.map_eq_nil_iff.mp hNil))]
  refine ⟨⟨⟨⟨List.append_ne_nil_of_left_ne_nil hNe _, ?_⟩, hHead⟩, ?_⟩, hSlashed⟩
  · simp [hFrontNul, hNul]
  · simp only [List.mem_append, List.mem_singleton, not_or]
    exact ⟨hFrontUp, hUp⟩

theorem valid_front {mount : Text × Path} (hMount : mount ∈ store.mounts) {front : Text}
    (hFront : mount.1 = front ++ ['/']) (hCanonical : canonical front = true) : validRelativeKey front = true := by
  have hValid := store.valid mount hMount
  simp only [validMountPrefix, Bool.and_eq_true] at hValid
  rw [hFront, List.rdropWhile_concat_pos _ _ _ (by decide), List.rdropWhile_eq_self_iff.mpr] at hValid
  · exact hValid.2
  · intro hNe hLast
    obtain ⟨rest, hRest⟩ : ∃ rest, front = rest ++ '/' :: [] := by
      refine ⟨front.dropLast, ?_⟩
      rw [← of_decide_eq_true hLast, List.dropLast_concat_getLast]
    rw [hRest, canonical, segments_slash, List.all_append, Bool.and_eq_true] at hCanonical
    exact absurd hCanonical.2 (by decide)

theorem accepted_freshName {mount : Text × Path} (hMount : mount ∈ store.keyed) :
    validRelativeKey (mount.1 ++ store.freshName) = true ∧ canonical (mount.1 ++ store.freshName) = true ∧
      store.located (mount.1 ++ store.freshName) = mount := by
  obtain ⟨hMem, hCanonical⟩ := List.mem_filter.mp hMount
  rcases List.mem_cons.mp hMem with rfl | hMem
  · refine ⟨valid_freshName, canonical_freshName, located_of_none fun other hOther hLe => ?_⟩
    obtain ⟨front, hFront⟩ := exists_of_mem hOther
    exact slash_notMem_freshName (hLe.subset (hFront ▸ by simp))
  · obtain ⟨front, hFront⟩ := exists_of_mem hMem
    rw [hFront, List.append_assoc, List.singleton_append, canonical, segments_slash, List.all_append,
      Bool.and_eq_true] at hCanonical
    have hValid := valid_front hMem hFront hCanonical.1
    refine ⟨?_, ?_, located_of_mount hMem (List.prefix_append ..)⟩
    · rw [hFront, List.append_assoc]
      exact valid_append_freshName hValid
    · rw [hFront, List.append_assoc, List.singleton_append, canonical, segments_slash, List.all_append, hCanonical.1]
      exact canonical_freshName

theorem pathFor_freshName {mount : Text × Path} (hMount : mount ∈ store.keyed) :
    store.pathFor (mount.1 ++ store.freshName) = some (mount.2 ++ [store.freshName]) := by
  obtain ⟨hValid, hCanonical, hLocated⟩ := accepted_freshName hMount
  have hResolve : resolve mount.2 store.freshName = mount.2 ++ [store.freshName] := by
    have hSegments := segments_of_no_slash store.slash_notMem_freshName
    rw [resolve_proper, hSegments]
    intro name hName
    rw [hSegments, List.mem_singleton] at hName
    rw [hName]
    exact proper_freshName
  rw [pathFor, hValid, hCanonical, if_neg (by decide)]
  simp only [hLocated, List.drop_left, hResolve]
  rw [if_neg, if_neg]
  · rw [List.any_eq_true]
    rintro ⟨other, hOther, hLands⟩
    simp only [Bool.and_eq_true, Bool.not_eq_true', ← Bool.not_eq_true, List.isPrefixOf_iff_prefix] at hLands
    rcases List.prefix_concat_iff.mp hLands.1.2 with rfl | hLe
    · exact freshName_notMem hOther (by simp)
    · exact hLands.2 hLe
  · simp [← Bool.not_eq_true, List.isPrefixOf_iff_prefix]

theorem nodup_of_injective
    (h : ∀ key key' p, store.pathFor key = some p → store.pathFor key' = some p → key = key') :
    (store.keyed.map Prod.snd).Nodup := by
  have hApart : (([], store.root) :: store.mounts).Pairwise fun a b => a.1 ≠ b.1 := by
    refine List.pairwise_cons.mpr ⟨fun mount hMount hEq => ?_, store.apart.imp fun hApart hEq => ?_⟩
    · obtain ⟨front, hFront⟩ := exists_of_mem hMount
      rw [hFront] at hEq
      simp at hEq
    · exact hApart.1 (hEq ▸ List.prefix_rfl)
  refine List.pairwise_map.mpr ((hApart.filter _).imp_of_mem ?_)
  intro a b ha hb hNe hDir
  have hPath := pathFor_freshName hb
  rw [← hDir] at hPath
  exact hNe (List.append_cancel_right (h _ _ _ (pathFor_freshName ha) hPath))

end Store

/-! ## The names of authored scenarios -/

def slashed (text : Text) : Text := text.map fun c => if c = '\\' then '/' else c

/-- The parts of a `PurePosixPath` below its root. -/
def pathParts (path : Text) : List Name := (segments path).filter fun part => part ≠ [] && part ≠ ['.']

def yamlSuffix : Text := ".yaml".toList

def stripDots (text : Text) : Text :=
  (text.dropWhile fun c => c = ' ' || c = '.').rdropWhile fun c => c = ' ' || c = '.'

def scenarioStem (name : Text) : Text :=
  let stem := (PyText.strip name).map fun c => if c = '/' || c = '\\' then '-' else c
  let stem := if yamlSuffix.isSuffixOf stem then stem.take (stem.length - yamlSuffix.length) else stem
  stripDots (stem.filter fun c => 0x1f < c.toNat)

def scenarioOutName (name : Text) : Text :=
  let stem := scenarioStem name
  (if stem = [] || stem = ['.'] || stem = ['.', '.'] then "authored".toList else stem) ++ yamlSuffix

def validScenarioRef (ref : Text) (allowAbsolute : Bool) : Bool :=
  ref ≠ [] && '\x00' ∉ ref && yamlSuffix.isSuffixOf ref && ((pathParts (slashed ref)).all fun part => part ≠ ['.', '.']) &&
    (allowAbsolute || (slashed ref).head? ≠ some '/')

def workspaceScenarios : Text := "scenarios".toList

/-- `taken` reads the storage. -/
def freeRef (taken : Text → Bool) (stamp ref : Text) : Text :=
  if taken ref then ref.take (ref.length - yamlSuffix.length) ++ '-' :: stamp ++ yamlSuffix else ref

/-- Where the worker writes the scenario, and the name it is saved under. -/
structure Authored where
  out : Text
  ref : Text

def authored (taken : Text → Bool) (stamp name : Text) : Authored :=
  let ref := freeRef taken stamp (scenarioOutName name)
  ⟨workspaceScenarios ++ '/' :: ref, ref⟩

/-- The name that `runnable` reads. -/
def runnableName (scenario : Text) : Option Text :=
  let name := (pathParts (slashed scenario)).getLast?.getD []
  if validScenarioRef name false then some name else none

/-- A stem that names a file in any directory. -/
structure PlainStem (stem : Text) : Prop where
  ne_nil : stem ≠ []
  head : stem.head? ≠ some '.'
  plain : ∀ c ∈ stem, c ≠ '/' ∧ c ≠ '\\' ∧ c ≠ '\x00'

theorem PlainStem.stamped {stem stamp : Text} (h : PlainStem stem)
    (hStamp : ∀ c ∈ stamp, c ≠ '/' ∧ c ≠ '\\' ∧ c ≠ '\x00') : PlainStem (stem ++ '-' :: stamp) where
  ne_nil := List.append_ne_nil_of_left_ne_nil h.ne_nil _
  head := by
    rw [List.head?_append_of_ne_nil _ h.ne_nil]
    exact h.head
  plain := by
    intro c hc
    rcases List.mem_append.mp hc with hc | hc
    · exact h.plain c hc
    · rcases List.mem_cons.mp hc with rfl | hc
      · decide
      · exact hStamp c hc

theorem stripDots_head (text : Text) : (stripDots text).head? ≠ some '.' := by
  intro hHead
  obtain ⟨rest, hRest⟩ := List.rdropWhile_prefix (fun c => c = ' ' || c = '.')
    (text.dropWhile fun c => c = ' ' || c = '.')
  have hDrop := List.head?_dropWhile_not (fun c => c = ' ' || c = '.') text
  obtain ⟨tail, hTail⟩ := List.head?_eq_some_iff.mp hHead
  rw [← hRest, show List.rdropWhile _ _ = '.' :: tail from hTail] at hDrop
  simp at hDrop

theorem scenarioStem_plain {name : Text} (hNe : scenarioStem name ≠ []) : PlainStem (scenarioStem name) := by
  refine ⟨hNe, stripDots_head _, fun c hc => ?_⟩
  obtain ⟨hc, hControl⟩ := List.mem_filter.mp
    ((List.dropWhile_sublist _).subset ((List.rdropWhile_prefix _ _).subset hc))
  have hMap : c ∈ (PyText.strip name).map fun c => if c = '/' || c = '\\' then '-' else c := by
    split at hc
    · exact List.mem_of_mem_take hc
    · exact hc
  obtain ⟨d, -, rfl⟩ := List.mem_map.mp hMap
  split
  · decide
  · rename_i hd
    simp only [Bool.or_eq_true, decide_eq_true_eq, not_or] at hd
    refine ⟨hd.1, hd.2, ?_⟩
    rintro rfl
    simp at hControl

theorem plain_fallback : PlainStem "authored".toList := by
  refine ⟨by decide, by decide, fun c hc => ?_⟩
  have hAll : ("authored".toList.all fun c => c ≠ '/' && c ≠ '\\' && c ≠ '\x00') = true := by decide
  have hPlain := List.all_eq_true.mp hAll c hc
  simp only [Bool.and_eq_true, decide_eq_true_eq] at hPlain
  exact ⟨hPlain.1.1, hPlain.1.2, hPlain.2⟩

theorem scenarioOutName_eq (name : Text) : ∃ stem, PlainStem stem ∧ scenarioOutName name = stem ++ yamlSuffix := by
  refine ⟨_, ?_, rfl⟩
  split
  · exact plain_fallback
  · rename_i hNe
    simp only [Bool.or_eq_true, decide_eq_true_eq, not_or] at hNe
    exact scenarioStem_plain hNe.1.1

theorem PlainStem.slash_notMem {stem : Text} (h : PlainStem stem) : '/' ∉ stem ++ yamlSuffix := by
  intro hMem
  rcases List.mem_append.mp hMem with hMem | hMem
  · exact (h.plain _ hMem).1 rfl
  · exact absurd hMem (by decide)

theorem PlainStem.slashed_eq {stem : Text} (h : PlainStem stem) : slashed (stem ++ yamlSuffix) = stem ++ yamlSuffix := by
  refine List.map_congr_left (fun c hc => if_neg ?_) |>.trans (List.map_id _)
  rcases List.mem_append.mp hc with hc | hc
  · exact (h.plain c hc).2.1
  · rintro rfl
    exact absurd hc (by decide)

theorem PlainStem.cons {stem : Text} (h : PlainStem stem) : ∃ c rest, stem ++ yamlSuffix = c :: rest ∧ c ≠ '.' ∧ c ≠ '/' := by
  rcases stem with _ | ⟨c, rest⟩
  · exact absurd rfl h.ne_nil
  · exact ⟨c, rest ++ yamlSuffix, rfl, fun hc => h.head (hc ▸ rfl), (h.plain c (List.mem_cons_self ..)).1⟩

theorem PlainStem.parts_eq {stem : Text} (h : PlainStem stem) : pathParts (stem ++ yamlSuffix) = [stem ++ yamlSuffix] := by
  obtain ⟨c, rest, hEq, hDot, -⟩ := h.cons
  rw [pathParts, segments_of_no_slash h.slash_notMem, hEq]
  simp [hDot]

theorem PlainStem.validScenarioRef_eq {stem : Text} (h : PlainStem stem) : validScenarioRef (stem ++ yamlSuffix) false = true := by
  obtain ⟨c, rest, hEq, hDot, hSlash⟩ := h.cons
  have hNul : '\x00' ∉ stem ++ yamlSuffix := by
    intro hMem
    rcases List.mem_append.mp hMem with hMem | hMem
    · exact (h.plain _ hMem).2.2 rfl
    · exact absurd hMem (by decide)
  have hSuffix : yamlSuffix.isSuffixOf (stem ++ yamlSuffix) = true := List.isSuffixOf_iff_suffix.mpr ⟨stem, rfl⟩
  rw [validScenarioRef, h.slashed_eq, h.parts_eq, hSuffix]
  rw [hEq] at hNul ⊢
  simp only [List.all_cons, List.all_nil, List.head?_cons]
  simp [hNul, hDot, hSlash]

theorem PlainStem.runnableName_eq {stem : Text} (h : PlainStem stem) :
    runnableName (workspaceScenarios ++ '/' :: (stem ++ yamlSuffix)) = some (stem ++ yamlSuffix) := by
  have hDir : slashed workspaceScenarios = workspaceScenarios ∧
      pathParts workspaceScenarios = [workspaceScenarios] := by decide
  have hParts : pathParts (slashed (workspaceScenarios ++ '/' :: (stem ++ yamlSuffix))) =
      [workspaceScenarios, stem ++ yamlSuffix] := by
    rw [slashed, List.map_append, List.map_cons, ← slashed, ← slashed, hDir.1, h.slashed_eq, pathParts,
      if_neg (by decide), segments_slash, List.filter_append, ← pathParts, ← pathParts, hDir.2, h.parts_eq]
    rfl
  rw [runnableName, hParts]
  exact if_pos h.validScenarioRef_eq

theorem PlainStem.canonical_eq {stem : Text} (h : PlainStem stem) : canonical (stem ++ yamlSuffix) = true := by
  obtain ⟨c, rest, hEq, hDot, -⟩ := h.cons
  have hStaging : stagingPrefix.isPrefixOf (stem ++ yamlSuffix) = false := by
    have hCons : stagingPrefix = '.' :: stagingPrefix.tail := by decide
    rw [hEq, hCons, List.isPrefixOf_cons_cons, beq_eq_false_iff_ne.mpr hDot.symm, Bool.false_and]
  have hNe : stem ++ yamlSuffix ≠ [] := by simp [hEq]
  have hCurrent : stem ++ yamlSuffix ≠ ".".toList := fun hc => hDot (List.cons.inj (hEq.symm.trans hc)).1
  rw [canonical, segments_of_no_slash h.slash_notMem, List.all_cons, List.all_nil, hStaging,
    decide_eq_true hNe, decide_eq_true hCurrent]
  rfl

theorem freeRef_eq {stem stamp : Text} (hStem : PlainStem stem)
    (hStamp : ∀ c ∈ stamp, c ≠ '/' ∧ c ≠ '\\' ∧ c ≠ '\x00') (taken : Text → Bool) :
    ∃ stem', PlainStem stem' ∧ freeRef taken stamp (stem ++ yamlSuffix) = stem' ++ yamlSuffix := by
  rw [freeRef]
  split
  · refine ⟨_, hStem.stamped hStamp, ?_⟩
    rw [List.length_append, Nat.add_sub_cancel, List.take_left]
  · exact ⟨stem, hStem, rfl⟩

/-- An authored scenario is run, from where it was written, by the name it was saved under. -/
theorem authored_runs {stamp : Text} (hStamp : (stamp.all fun c => c.isDigit || c = '-') = true) (taken : Text → Bool)
    (name : Text) :
    runnableName (authored taken stamp name).out = some (authored taken stamp name).ref ∧
      validScenarioRef (authored taken stamp name).ref false = true ∧ '/' ∉ (authored taken stamp name).ref ∧
      canonical (authored taken stamp name).ref = true := by
  obtain ⟨stem, hStem, hName⟩ := scenarioOutName_eq name
  have hPlain : ∀ c ∈ stamp, c ≠ '/' ∧ c ≠ '\\' ∧ c ≠ '\x00' := by
    intro c hc
    refine ⟨?_, ?_, ?_⟩ <;> rintro rfl <;> exact absurd (List.all_eq_true.mp hStamp _ hc) (by decide)
  obtain ⟨stem', hStem', hRef⟩ := freeRef_eq hStem hPlain taken
  rw [authored, hName, hRef]
  exact ⟨hStem'.runnableName_eq, hStem'.validScenarioRef_eq, hStem'.slash_notMem, hStem'.canonical_eq⟩

theorem authored_runs_taken :
    runnableName (authored (fun _ => true) "20260101-000000".toList " ../a.yaml".toList).out =
      some (authored (fun _ => true) "20260101-000000".toList " ../a.yaml".toList).ref :=
  (authored_runs (by decide) (fun _ => true) " ../a.yaml".toList).1

end Bajutsu.Serve
