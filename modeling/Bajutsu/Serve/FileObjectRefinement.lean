import Bajutsu.Serve.FileObjectKeys

/-!
# The store as a map from keys

The operations keep the file of each accepted key as the map has it. A listing walks the directories, and
gives a file by its path below the directory it walks. Where a directory lies in another one of the store's,
its files are below both.
-/

namespace Bajutsu.Serve

open FileSystem

namespace Store

variable {store : Store} {β : Type} {fs fs' : Fs β} {content : Text → Option β}

/-! ## The files of the keys -/

structure Refines (store : Store) (fs : Fs β) (content : Text → Option β) : Prop where
  wf : fs.Wf
  file : ∀ {key p}, store.pathFor key = some p → fs.file p = content key
  refused : ∀ {key}, store.pathFor key = none → content key = none
  named : ∀ {p dir}, (fs.file p).isSome → dir ∈ store.dirs → dir <+: p → p ≠ dir →
    ∃ key, store.pathFor key = some p

theorem Refines.start (hWf : fs.Wf)
    (hEmpty : ∀ p dir, dir ∈ store.dirs → dir <+: p → p ≠ dir → fs.file p = none) :
    Refines store fs fun _ => none where
  wf := hWf
  file := by
    intro key p hPath
    obtain ⟨-, -, -, rfl, -⟩ := pathFor_eq_some hPath
    refine hEmpty _ _ (store.located_mem_dirs key) (List.prefix_append ..) ?_
    simpa using segments_ne_nil _
  refused := fun _ => rfl
  named := by
    intro p dir hFile hDir hLe hNe
    rw [hEmpty p dir hDir hLe hNe] at hFile
    cases hFile

theorem Refines.set (h : Refines store fs content) (hNodup : (store.keyed.map Prod.snd).Nodup) {key : Text} {p : Path}
    (hPath : store.pathFor key = some p) (hWf : fs'.Wf) (hElse : ∀ q, q ≠ p → fs'.file q = fs.file q) :
    Refines store fs' fun other => if key = other then fs'.file p else content other where
  wf := hWf
  file := by
    intro other q hOther
    split
    · rename_i hEq
      rw [← hEq, hPath] at hOther
      rw [Option.some.inj hOther]
    · rename_i hNe
      rw [hElse q, h.file hOther]
      rintro rfl
      exact hNe (pathFor_injective hNodup hPath hOther)
  refused := by
    intro other hOther
    rw [if_neg, h.refused hOther]
    rintro rfl
    cases hPath.symm.trans hOther
  named := by
    intro q dir hFile hDir hLe hNe
    by_cases hEq : q = p
    · exact ⟨key, hEq ▸ hPath⟩
    · rw [hElse q hEq] at hFile
      exact h.named hFile hDir hLe hNe

theorem putBytes_cases (hWf : fs.Wf) {key : Text} {content : β} {result : Fs β × Answer β}
    (h : store.putBytes key content fs = some result) :
    (store.pathFor key = none ∧ result = (fs, .valueError)) ∨
      ∃ p, store.pathFor key = some p ∧ result.1.Wf ∧ result.1.file p = some content ∧
        ∀ q, q ≠ p → result.1.file q = fs.file q := by
  rw [putBytes] at h
  cases hPath : store.pathFor key with
  | none =>
    rw [hPath] at h
    exact .inl ⟨rfl, (Option.some.inj h).symm⟩
  | some p =>
    rw [hPath] at h
    obtain ⟨made, hMade, h⟩ := Option.bind_eq_some_iff.mp h
    obtain ⟨parents, hParents, h⟩ := Option.bind_eq_some_iff.mp h
    obtain ⟨written, hWritten, rfl⟩ := Option.map_eq_some_iff.mp h
    obtain ⟨hMadeWf, hMadeFiles⟩ := hWf.mkdirEach hMade
    obtain ⟨hParentsWf, hParentsFiles⟩ := hMadeWf.mkdirEach hParents
    obtain ⟨hWrittenWf, hFile, hElse⟩ := hParentsWf.write hWritten
    refine .inr ⟨p, rfl, hWrittenWf, hFile, fun q hq => ?_⟩
    rw [hElse q hq, Fs.file, hParentsFiles, hMadeFiles, Fs.file]

theorem deleteKey_cases (hWf : fs.Wf) {key : Text} {result : Fs β × Answer β}
    (h : store.deleteKey key fs = some result) :
    (store.pathFor key = none ∧ result = (fs, .done)) ∨
      ∃ p, store.pathFor key = some p ∧ result.1.Wf ∧ result.1.file p = none ∧
        ∀ q, q ≠ p → result.1.file q = fs.file q := by
  rw [deleteKey] at h
  cases hPath : store.pathFor key with
  | none =>
    rw [hPath] at h
    exact .inl ⟨rfl, (Option.some.inj h).symm⟩
  | some p =>
    simp only [hPath] at h
    split at h
    · obtain rfl := Option.some.inj h
      obtain ⟨hUnlinkWf, hFile, hElse⟩ := hWf.unlink p
      refine .inr ⟨p, rfl, ?_⟩
      obtain ⟨hPruneWf, hPruneFiles⟩ := hUnlinkWf.rmdirWhile (p.dropLast.inits.reverse.takeWhile fun parent =>
        parent ≠ (store.located key).2 && (store.located key).2.isPrefixOf parent)
      refine ⟨hPruneWf, ?_, fun q hq => ?_⟩
      · rw [Fs.file, hPruneFiles]
        exact hFile
      · rw [Fs.file, hPruneFiles]
        exact hElse q hq
    · rename_i hMissing
      obtain rfl := Option.some.inj h
      exact .inr ⟨p, rfl, hWf, Option.not_isSome_iff_eq_none.mp hMissing, fun _ _ => rfl⟩

theorem getBytes_eq (h : Refines store fs content) {key : Text} {result : Fs β × Answer β}
    (hGet : store.getBytes key fs = some result) : result = (fs, .content (content key)) := by
  rw [getBytes] at hGet
  cases hPath : store.pathFor key with
  | none =>
    rw [hPath] at hGet
    rw [h.refused hPath]
    exact (Option.some.inj hGet).symm
  | some p =>
    simp only [hPath] at hGet
    split at hGet
    · cases hGet
    · rw [← h.file hPath]
      exact (Option.some.inj hGet).symm

theorem listKeys_fst {start : Text} {result : Fs β × Answer β} (h : store.listKeys start fs = some result) :
    result.1 = fs := by
  rw [listKeys] at h
  split at h
  · rw [← Option.some.inj h]
  · split at h <;> rw [← Option.some.inj h]

theorem Refines.op (h : Refines store fs content) (hNodup : (store.keyed.map Prod.snd).Nodup) {o : Op β} {result : Fs β × Answer β}
    (hOp : store.op o fs = some result) :
    Refines store result.1 fun key => store.left key (content key) o := by
  cases o with
  | putBytes key bytes =>
    rcases putBytes_cases h.wf hOp with ⟨hPath, rfl⟩ | ⟨p, hPath, hWf, hFile, hElse⟩
    · convert h using 2 with other
      rw [left, if_neg]
      rintro ⟨rfl, hSome⟩
      rw [hPath] at hSome
      cases hSome
    · convert h.set hNodup hPath hWf hElse using 2 with other
      rw [left, hFile]
      by_cases hEq : key = other
      · rw [if_pos ⟨hEq, by rw [← hEq, hPath]; rfl⟩, if_pos hEq]
      · rw [if_neg (fun hBoth => hEq hBoth.1), if_neg hEq]
  | deleteKey key =>
    rcases deleteKey_cases h.wf hOp with ⟨hPath, rfl⟩ | ⟨p, hPath, hWf, hFile, hElse⟩
    · convert h using 2 with other
      rw [left]
      split
      · rename_i hEq
        rw [← hEq, h.refused hPath]
      · rfl
    · convert h.set hNodup hPath hWf hElse using 2 with other
      rw [left, hFile]
  | getBytes key =>
    rw [getBytes_eq h hOp]
    exact h
  | listKeys start =>
    rw [listKeys_fst hOp]
    exact h

theorem Refines.run (hNodup : (store.keyed.map Prod.snd).Nodup) {ops : List (Op β)} (h : Refines store fs content)
    (hRun : store.run fs ops = some fs') :
    Refines store fs' fun key => ops.foldl (store.left key) (content key) := by
  induction ops generalizing fs content with
  | nil =>
    obtain rfl := Option.some.inj hRun
    exact h
  | cons o ops ih =>
    obtain ⟨result, hOp, hRest⟩ := Option.bind_eq_some_iff.mp hRun
    exact ih (h.op hNodup hOp) hRest

/-! ## Walking a directory -/

theorem mem_sorted {key : Text} {keys : List Text} : key ∈ sorted keys ↔ key ∈ keys :=
  (List.perm_insertionSort _ keys).mem_iff

theorem sorted_pairwise {keys : List Text} (h : keys.Nodup) : (sorted keys).Pairwise (· < ·) := by
  have hLe : (sorted keys).Pairwise (· ≤ ·) := List.pairwise_insertionSort _ keys
  have hNe : (sorted keys).Pairwise (· ≠ ·) := (List.perm_insertionSort _ keys).nodup_iff.mpr h
  exact hLe.imp₂ (fun _ _ hLe hNe => lt_of_le_of_ne hLe hNe) hNe

/-- The files below a directory have names that a walk gives back. -/
def Listable (fs : Fs β) (base : Path) : Prop :=
  ∀ rel, rel ≠ [] → (fs.file (base ++ rel)).isSome →
    (∀ name ∈ rel, ProperName name) ∧ ((base ++ rel).getLast?).any (stagingPrefix.isPrefixOf ·) = false

theorem Refines.listable (h : Refines store fs content) {base : Path} (hBase : base ∈ store.dirs) :
    Listable fs base := by
  intro rel hNe hFile
  obtain ⟨key, hPath⟩ := h.named hFile hBase (List.prefix_append ..) (by simpa using hNe)
  obtain ⟨hProper, hCanonical, -, hEq, -⟩ := pathFor_eq_some hPath
  have hSegments := @relOf_subset store key
  constructor
  · intro name hName
    have hMem : name ∈ base ++ rel := List.mem_append_right _ hName
    rw [hEq] at hMem
    rcases List.mem_append.mp hMem with hMem | hMem
    · exact store.proper _ (store.located_mem_dirs key) name hMem
    · exact hProper name (hSegments name hMem)
  · rw [hEq, List.getLast?_append_of_ne_nil _ (segments_ne_nil _), List.getLast?_eq_some_getLast (segments_ne_nil _)]
    have hLast := List.all_eq_true.mp hCanonical _ (hSegments _ (List.getLast_mem (segments_ne_nil _)))
    simp only [Bool.and_eq_true, Bool.not_eq_true'] at hLast
    exact hLast.2

theorem exists_rel_of_mem_walk {base dir p : Path} (hBase : base <+: dir) (h : p ∈ fs.walk dir) :
    ∃ rel, rel ≠ [] ∧ p = base ++ rel ∧ (fs.file p).isSome := by
  obtain ⟨hSome, hBelow, hNe⟩ := Fs.mem_walk.mp h
  obtain ⟨rel, rfl⟩ := hBase.trans hBelow
  refine ⟨rel, ?_, rfl, hSome⟩
  rintro rfl
  rw [List.append_nil] at hBelow hNe
  exact hNe (hBase.eq_of_length (le_antisymm hBase.length_le hBelow.length_le))

theorem keyOf_eq_some {base rel : Path} {keyPrefix start key : Text}
    (h : keyOf base keyPrefix start (base ++ rel) = some key) :
    key = keyPrefix ++ joined rel ∧ start <+: key := by
  simp only [keyOf, List.drop_left] at h
  split at h
  · cases h
  · split at h
    · rename_i hLe
      obtain rfl := Option.some.inj h
      exact ⟨rfl, List.isPrefixOf_iff_prefix.mp hLe⟩
    · cases h

theorem not_walked {base dir : Path} :
    (!base.isPrefixOf dir || !fs.isDir dir) = true ↔ ¬(base <+: dir ∧ fs.isDir dir = true) := by
  rw [← List.isPrefixOf_iff_prefix]
  simp only [Bool.or_eq_true, Bool.not_eq_true', ← Bool.not_eq_true, not_and_or]

theorem mem_walk {base : Path} {keyPrefix start key : Text} (hWf : fs.Wf) (hListable : Listable fs base)
    (hStart : keyPrefix <+: start) :
    key ∈ walk base keyPrefix start fs ↔
      start <+: key ∧ ∃ rel, rel ≠ [] ∧ key = keyPrefix ++ joined rel ∧ (fs.file (base ++ rel)).isSome := by
  obtain ⟨below, rfl⟩ := hStart
  simp only [walk, List.drop_left, not_walked]
  constructor
  · intro hMem
    split at hMem
    · cases hMem
    · rename_i hDir
      obtain ⟨p, hFile, hKey⟩ := List.mem_filterMap.mp (mem_sorted.mp hMem)
      obtain ⟨rel, hNe, rfl, hSome⟩ := exists_rel_of_mem_walk (not_not.mp hDir).1 hFile
      obtain ⟨rfl, hLe⟩ := keyOf_eq_some hKey
      exact ⟨hLe, rel, hNe, rfl, hSome⟩
  · rintro ⟨hLe, rel, hNe, rfl, hSome⟩
    obtain ⟨hProper, hStaged⟩ := hListable rel hNe hSome
    have hBelow : below <+: joined rel := (List.prefix_append_right_inj keyPrefix).mp hLe
    obtain ⟨name, rest, hRel⟩ := segments_of_isPrefix (fun n hn => (hProper n hn).2.1) hNe hBelow
    have hInit : ∀ n ∈ (segments below).dropLast, ProperName n := fun n hn =>
      hProper n (hRel ▸ List.mem_append_left _ hn)
    have hDir : resolve base (joined (segments below).dropLast) = base ++ (segments below).dropLast := by
      rcases eq_or_ne (segments below).dropLast [] with hNil | hInitNe
      · rw [hNil, List.append_nil]
        rfl
      · have hBack := segments_joined (fun n hn => (hInit n hn).2.1) hInitNe
        rw [resolve_proper, hBack]
        rwa [hBack]
    have hPath : base ++ rel = base ++ (segments below).dropLast ++ name :: rest := by
      rw [List.append_assoc, ← hRel]
    have hAbove : base ++ (segments below).dropLast <+: base ++ rel := ⟨_, hPath.symm⟩
    have hOther : base ++ rel ≠ base ++ (segments below).dropLast := by simp [hPath]
    rw [hDir, if_neg]
    · refine mem_sorted.mpr (List.mem_filterMap.mpr ⟨base ++ rel, Fs.mem_walk.mpr ⟨hSome, hAbove, hOther⟩, ?_⟩)
      simp only [keyOf, List.drop_left]
      rw [hStaged, if_neg Bool.false_ne_true, if_pos (List.isPrefixOf_iff_prefix.mpr hLe)]
    · exact not_not_intro ⟨List.prefix_append .., hWf.isDir_of_file hSome hAbove hOther.symm⟩

theorem walk_pairwise {base : Path} {keyPrefix start : Text} (hWf : fs.Wf) (hListable : Listable fs base) :
    (walk base keyPrefix start fs).Pairwise (· < ·) := by
  simp only [walk, not_walked]
  split
  · exact List.Pairwise.nil
  · rename_i hDir
    refine sorted_pairwise (List.pairwise_filterMap.mpr ?_)
    have hNodup : (fs.walk (resolve base (joined (segments (start.drop keyPrefix.length)).dropLast))).Nodup :=
      hWf.nodup.filter _
    refine hNodup.imp_of_mem ?_
    intro p q hp hq hNe key hKey key' hKey' hEq
    obtain ⟨rel, hRel, rfl, hSome⟩ := exists_rel_of_mem_walk (not_not.mp hDir).1 hp
    obtain ⟨rel', hRel', rfl, hSome'⟩ := exists_rel_of_mem_walk (not_not.mp hDir).1 hq
    rw [(keyOf_eq_some hKey).1, (keyOf_eq_some hKey').1] at hEq
    refine hNe (congrArg (base ++ ·) (joined_inj ?_ hRel ?_ hRel' (List.append_cancel_left hEq)))
    · exact fun name hName => ((hListable rel hRel hSome).1 name hName).2.1
    · exact fun name hName => ((hListable rel' hRel' hSome').1 name hName).2.1

/-! ## Listing -/

/-- A name that a listing can give a file: the path to it from the directory of the name. -/
def Names (store : Store) (key : Text) (p : Path) : Prop :=
  ∃ rel, rel ≠ [] ∧ key = (store.located key).1 ++ joined rel ∧ p = (store.located key).2 ++ rel

theorem names_of_pathFor {key : Text} {p : Path} (h : store.pathFor key = some p) : store.Names key p := by
  obtain ⟨-, -, -, hPath, -⟩ := pathFor_eq_some h
  refine ⟨segments (store.relOf key), segments_ne_nil _, ?_, hPath⟩
  rw [joined_segments, located_append_relOf]

/-- The root's keys outside every mount, where no mount's prefix starts the listed one. -/
def outside (store : Store) (start : Text) (fs : Fs β) : List Text :=
  (walk store.root [] start fs).filter fun key => !store.mounts.any fun mount => mount.1.isPrefixOf key

def inside (store : Store) (start : Text) (fs : Fs β) : List Text :=
  store.mounts.flatMap fun mount => if start.isPrefixOf mount.1 then walk mount.2 mount.1 mount.1 fs else []

section Spanning

variable (h : Refines store fs content) {start : Text}
include h

theorem Refines.listable_root : Listable fs store.root := h.listable List.mem_cons_self

theorem Refines.listable_mount {mount : Text × Path} (hMount : mount ∈ store.mounts) : Listable fs mount.2 :=
  h.listable (List.mem_cons_of_mem _ (List.mem_map_of_mem hMount))

theorem mem_outside {key : Text} :
    key ∈ store.outside start fs ↔
      (∀ mount ∈ store.mounts, ¬mount.1 <+: key) ∧ start <+: key ∧ ∃ p, (fs.file p).isSome ∧ store.Names key p := by
  rw [outside, List.mem_filter, mem_walk h.wf h.listable_root List.nil_prefix]
  have hNone : (!store.mounts.any fun mount => mount.1.isPrefixOf key) = true ↔
      ∀ mount ∈ store.mounts, ¬mount.1 <+: key := by
    simp [← Bool.not_eq_true, List.isPrefixOf_iff_prefix]
  rw [hNone, and_comm]
  refine and_congr_right fun hOutside => and_congr_right fun _ => ?_
  simp only [Names, located_of_none hOutside]
  constructor
  · rintro ⟨rel, hNe, hEq, hSome⟩
    exact ⟨_, hSome, rel, hNe, hEq, rfl⟩
  · rintro ⟨_, hSome, rel, hNe, hEq, rfl⟩
    exact ⟨rel, hNe, hEq, hSome⟩

theorem mem_walk_mount {mount : Text × Path} (hMount : mount ∈ store.mounts) (hLe : mount.1 <+: start) {key : Text} :
    key ∈ walk mount.2 mount.1 start fs ↔ start <+: key ∧ ∃ p, (fs.file p).isSome ∧ store.Names key p := by
  rw [mem_walk h.wf (h.listable_mount hMount) hLe]
  refine and_congr_right fun hKey => ?_
  simp only [Names, located_of_mount hMount (hLe.trans hKey)]
  constructor
  · rintro ⟨rel, hNe, hEq, hSome⟩
    exact ⟨_, hSome, rel, hNe, hEq, rfl⟩
  · rintro ⟨_, hSome, rel, hNe, hEq, rfl⟩
    exact ⟨rel, hNe, hEq, hSome⟩

theorem mem_inside {key : Text} :
    key ∈ store.inside start fs ↔
      ∃ mount ∈ store.mounts, start <+: mount.1 ∧ mount.1 <+: key ∧ ∃ p, (fs.file p).isSome ∧ store.Names key p := by
  rw [inside, List.mem_flatMap]
  refine exists_congr fun mount => and_congr_right fun hMount => ?_
  split
  · rename_i hLe
    rw [mem_walk_mount h hMount List.prefix_rfl]
    exact (and_iff_right (List.isPrefixOf_iff_prefix.mp hLe)).symm
  · rename_i hLe
    exact ⟨fun hMem => absurd hMem List.not_mem_nil,
      fun hAll => absurd (List.isPrefixOf_iff_prefix.mpr hAll.1) hLe⟩

theorem mem_outside_append_inside (hFind : ∀ mount ∈ store.mounts, ¬mount.1 <+: start) {key : Text} :
    key ∈ store.outside start fs ++ store.inside start fs ↔
      start <+: key ∧ ∃ p, (fs.file p).isSome ∧ store.Names key p := by
  rw [List.mem_append, mem_outside h, mem_inside h]
  constructor
  · rintro (⟨-, hKey⟩ | ⟨mount, -, hLe, hBelow, hNamed⟩)
    · exact hKey
    · exact ⟨hLe.trans hBelow, hNamed⟩
  · rintro ⟨hLe, hNamed⟩
    by_cases hMounts : ∃ mount ∈ store.mounts, mount.1 <+: key
    · obtain ⟨mount, hMount, hBelow⟩ := hMounts
      have hStart : start <+: mount.1 :=
        (List.prefix_or_prefix_of_prefix hLe hBelow).resolve_right (hFind mount hMount)
      exact .inr ⟨mount, hMount, hStart, hBelow, hNamed⟩
    · exact .inl ⟨fun mount hMount hBelow => hMounts ⟨mount, hMount, hBelow⟩, hLe, hNamed⟩

theorem outside_pairwise : (store.outside start fs).Pairwise (· < ·) :=
  (walk_pairwise h.wf h.listable_root).filter _

theorem nodup_outside_append_inside : (store.outside start fs ++ store.inside start fs).Nodup := by
  refine List.Nodup.append ((outside_pairwise h).imp fun hLt => hLt.ne) ?_ ?_
  · refine List.nodup_flatMap.mpr ⟨?_, ?_⟩
    · intro mount hMount
      split
      · exact (walk_pairwise h.wf (h.listable_mount hMount)).imp fun hLt => hLt.ne
      · exact List.nodup_nil
    · have hBelow : ∀ mount ∈ store.mounts, ∀ key,
          key ∈ (if start.isPrefixOf mount.1 then walk mount.2 mount.1 mount.1 fs else []) → mount.1 <+: key := by
        intro mount hMount key hKey
        split at hKey
        · exact ((mem_walk_mount h hMount List.prefix_rfl).mp hKey).1
        · exact absurd hKey List.not_mem_nil
      refine store.apart.imp_of_mem ?_
      intro a b ha hb hApart key hKey hKey'
      exact (List.prefix_or_prefix_of_prefix (hBelow a ha key hKey) (hBelow b hb key hKey')).elim hApart.1 hApart.2
  · intro key hOut hIn
    obtain ⟨mount, hMount, -, hLe, -⟩ := (mem_inside h).mp hIn
    exact ((mem_outside h).mp hOut).1 mount hMount hLe

end Spanning

theorem mem_listKeys (h : Refines store fs content) {start : Text}
    (hStart : start = [] ∨ validRelativeKey start = true) :
    ∃ keys, store.listKeys start fs = some (fs, .keys keys) ∧ keys.Pairwise (· < ·) ∧
      ∀ key, key ∈ keys ↔ start <+: key ∧ ∃ p, (fs.file p).isSome ∧ store.Names key p := by
  have hRefused : (start ≠ [] && !validRelativeKey start) = false := by
    rcases hStart with rfl | hValid
    · rfl
    · rw [hValid, Bool.not_true, Bool.and_false]
  rw [listKeys, hRefused, if_neg Bool.false_ne_true]
  split
  · rename_i mount hFind
    have hMount := List.mem_of_find?_eq_some hFind
    have hLe := List.find?_some hFind
    refine ⟨_, rfl, walk_pairwise h.wf (h.listable_mount hMount), fun key => ?_⟩
    exact mem_walk_mount h hMount (List.isPrefixOf_iff_prefix.mp hLe)
  · rename_i hFind
    have hNone : ∀ mount ∈ store.mounts, ¬mount.1 <+: start := fun mount hMount hLe =>
      List.find?_eq_none.mp hFind mount hMount (List.isPrefixOf_iff_prefix.mpr hLe)
    change ∃ keys, some (fs, Answer.keys (if store.mounts.isEmpty then store.outside start fs
      else sorted (store.outside start fs ++ store.inside start fs))) = _ ∧ _
    refine ⟨_, rfl, ?_⟩
    split
    · rename_i hEmpty
      have hInside : store.inside start fs = [] := by
        rw [inside, List.isEmpty_iff.mp hEmpty]
        rfl
      refine ⟨outside_pairwise h, fun key => ?_⟩
      rw [← mem_outside_append_inside h hNone, hInside, List.append_nil]
    · refine ⟨sorted_pairwise (nodup_outside_append_inside h), fun key => ?_⟩
      rw [mem_sorted, mem_outside_append_inside h hNone]

/-! ## When a listing is right -/

/-- No stored object's file has another name that a listing of `start` gives it. -/
def Clear (store : Store) (content : Text → Option β) (start : Text) : Prop :=
  ∀ key p, (content key).isSome → store.pathFor key = some p →
    ∀ name, start <+: name → store.Names name p → name = key

theorem Refines.key_of_names (h : Refines store fs content) {name : Text} {p : Path} (hFile : (fs.file p).isSome)
    (hNames : store.Names name p) : ∃ key, store.pathFor key = some p ∧ (content key).isSome := by
  obtain ⟨rel, hNe, -, rfl⟩ := hNames
  obtain ⟨key, hPath⟩ := h.named hFile (store.located_mem_dirs name) (List.prefix_append ..) (by simpa using hNe)
  exact ⟨key, hPath, by rwa [← h.file hPath]⟩

theorem Refines.pathFor_of_stored (h : Refines store fs content) {key : Text} (hStored : (content key).isSome) :
    ∃ p, store.pathFor key = some p ∧ (fs.file p).isSome := by
  cases hPath : store.pathFor key with
  | none =>
    rw [h.refused hPath] at hStored
    cases hStored
  | some p => exact ⟨p, rfl, by rwa [h.file hPath]⟩

theorem Refines.pathFor_of_names (h : Refines store fs content) {key : Text} {p : Path} (hFile : (fs.file p).isSome)
    (hNames : store.Names key p) (hStored : (content key).isSome) : store.pathFor key = some p := by
  obtain ⟨q, hPath, -⟩ := h.pathFor_of_stored hStored
  obtain ⟨rel, hNe, hKey, rfl⟩ := hNames
  obtain ⟨hProper, -, -, rfl, -⟩ := pathFor_eq_some hPath
  have hRel : rel = segments (store.relOf key) := by
    refine joined_inj ?_ hNe (fun _ => no_slash_of_mem_segments) (segments_ne_nil _) ?_
    · exact fun name hName => (((h.listable (store.located_mem_dirs key)) rel hNe hFile).1 name hName).2.1
    · apply List.append_cancel_left
      rw [← hKey, joined_segments, located_append_relOf]
  rw [hRel, hPath]

theorem Refines.listed_iff_clear (h : Refines store fs content) (hNodup : (store.keyed.map Prod.snd).Nodup) {start : Text} {keys : List Text}
    (hKeys : ∀ key, key ∈ keys ↔ start <+: key ∧ ∃ p, (fs.file p).isSome ∧ store.Names key p) :
    (∀ key, key ∈ keys ↔ (content key).isSome ∧ start <+: key) ↔ store.Clear content start := by
  constructor
  · intro hListed key p hStored hPath name hLe hNames
    have hFile : (fs.file p).isSome := by rwa [h.file hPath]
    have hName := (hListed name).mp ((hKeys name).mpr ⟨hLe, p, hFile, hNames⟩)
    exact pathFor_injective hNodup (h.pathFor_of_names hFile hNames hName.1) hPath
  · intro hClear key
    rw [hKeys key]
    constructor
    · rintro ⟨hLe, p, hFile, hNames⟩
      obtain ⟨key', hPath, hStored⟩ := h.key_of_names hFile hNames
      obtain rfl := hClear key' p hStored hPath key hLe hNames
      exact ⟨hStored, hLe⟩
    · rintro ⟨hStored, hLe⟩
      obtain ⟨p, hPath, hFile⟩ := h.pathFor_of_stored hStored
      exact ⟨hLe, p, hFile, names_of_pathFor hPath⟩

/-- Where no directory of the store lies in another, a file is below one of them. -/
theorem clear_of_apart (hNodup : store.dirs.Nodup) (hApart : ∀ a ∈ store.dirs, ∀ b ∈ store.dirs, a <+: b → a = b)
    (start : Text) : store.Clear content start := by
  rintro key p - hPath name - ⟨rel, -, hName, hRel⟩
  obtain ⟨-, -, -, hKey, -⟩ := pathFor_eq_some hPath
  have hDir : (store.located name).2 = (store.located key).2 := by
    have hLe : (store.located name).2 <+: p := ⟨_, hRel.symm⟩
    have hLe' : (store.located key).2 <+: p := ⟨_, hKey.symm⟩
    rcases List.prefix_or_prefix_of_prefix hLe hLe' with hLe | hLe
    · exact hApart _ (store.located_mem_dirs name) _ (store.located_mem_dirs key) hLe
    · exact (hApart _ (store.located_mem_dirs key) _ (store.located_mem_dirs name) hLe).symm
  have hLocated : store.located name = store.located key :=
    @List.inj_on_of_nodup_map _ _ Prod.snd (([], store.root) :: store.mounts) hNodup _ (store.located_mem name) _
      (store.located_mem key) hDir
  have hSegments : rel = segments (store.relOf key) := by
    apply List.append_cancel_left
    rw [← hRel, hKey, hDir]
  rw [hName, hSegments, hLocated, joined_segments, located_append_relOf]

/-- The store answers as a map from the keys it accepts, with the listings whose names are clear. -/
theorem file_store_is_map (store : Store) :
    ((∀ key key' p, store.pathFor key = some p → store.pathFor key' = some p → key = key') ↔
      (store.keyed.map Prod.snd).Nodup) ∧
    ((store.keyed.map Prod.snd).Nodup → ∀ (fs fs' : Fs β) (ops : List (Op β)), fs.Wf →
      (∀ p dir, dir ∈ store.dirs → dir <+: p → p ≠ dir → fs.file p = none) → store.run fs ops = some fs' →
        (∀ key result, store.op (.getBytes key) fs' = some result →
          result = (fs', .content (store.stored ops key))) ∧
        ∀ start, start = [] ∨ validRelativeKey start = true →
          ∃ keys, store.op (.listKeys start) fs' = some (fs', .keys keys) ∧ keys.Pairwise (· < ·) ∧
            ((∀ key, key ∈ keys ↔ (store.stored ops key).isSome ∧ start <+: key) ↔
              store.Clear (store.stored ops) start)) ∧
    (store.dirs.Nodup → (∀ a ∈ store.dirs, ∀ b ∈ store.dirs, a <+: b → a = b) → ∀ (ops : List (Op β)) start,
      store.Clear (store.stored ops) start) := by
  refine ⟨⟨nodup_of_injective, fun hNodup _ _ _ => pathFor_injective hNodup⟩, ?_,
    fun hNodup hApart _ start => clear_of_apart hNodup hApart start⟩
  intro hNodup fs fs' ops hWf hEmpty hRun
  have hRefines : Refines store fs' (store.stored ops) := (Refines.start hWf hEmpty).run hNodup hRun
  refine ⟨fun key result hGet => getBytes_eq hRefines hGet, fun start hStart => ?_⟩
  obtain ⟨keys, hList, hSorted, hKeys⟩ := mem_listKeys hRefines hStart
  exact ⟨keys, hList, hSorted, hRefines.listed_iff_clear hNodup hKeys⟩

/-- A local start with its runs tree below the directory of the other objects. -/
def nested : Store where
  root := ["s".toList]
  mounts := [("artifacts/".toList, ["s".toList, "runs".toList])]
  valid := by decide +kernel
  apart := List.pairwise_singleton _ _
  proper := by
    simp only [List.map_cons, List.map_nil, List.mem_cons, List.not_mem_nil, or_false, forall_eq_or_imp, forall_eq,
      ProperName]
    decide +kernel

def nestedDirs : Fs Unit := ⟨[], [["s".toList], ["s".toList, "runs".toList]]⟩

theorem nestedDirs_wf : nestedDirs.Wf :=
  ⟨List.nodup_nil, by decide +kernel, (fun _ h => nomatch h), (fun _ h => nomatch h)⟩

/-- The object of one key. -/
def nestedPut : Fs Unit :=
  ⟨[(["s".toList, "runs".toList, "x".toList], ())], [["s".toList], ["s".toList, "runs".toList]]⟩

theorem file_store_is_map_put :
    (∀ result, nested.op (.getBytes "artifacts/x".toList) nestedPut = some result →
      result = (nestedPut, .content (some ()))) ∧
    ∃ keys, nested.op (.listKeys "artifacts/".toList) nestedPut = some (nestedPut, .keys keys) ∧
      keys.Pairwise (· < ·) := by
  obtain ⟨-, hMap, -⟩ := @file_store_is_map Unit nested
  obtain ⟨hGet, hList⟩ := hMap (by decide +kernel) nestedDirs nestedPut [.putBytes "artifacts/x".toList ()] nestedDirs_wf
    (fun _ _ _ _ _ => rfl) (by decide +kernel)
  obtain ⟨keys, hKeys, hSorted, -⟩ := hList "artifacts/".toList (.inr (by decide +kernel))
  refine ⟨fun result hResult => ?_, keys, hKeys, hSorted⟩
  rw [hGet _ result hResult]
  decide +kernel

/-- An object below the mount is listed among the root's, under a key that was never put. -/
theorem nested_listed_twice :
    nested.run nestedDirs [.putBytes "artifacts/x".toList ()] = some nestedPut ∧
      nested.op (.listKeys []) nestedPut = some (nestedPut, .keys ["artifacts/x".toList, "runs/x".toList]) ∧
      nested.stored [.putBytes "artifacts/x".toList ()] "runs/x".toList = none ∧
      nested.op (.getBytes "runs/x".toList) nestedPut = some (nestedPut, .content none) := by
  decide +kernel

end Store

end Bajutsu.Serve
