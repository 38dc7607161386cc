import Bajutsu.Lib.PyValue
import Mathlib.Data.List.Infix

/-!
# A file system without links

Directories and regular files, each at the path of names that leads to it from the root. An operation that
the system refuses gives `none`.
-/

namespace Bajutsu.FileSystem

open PyValue

abbrev Name := List Char

abbrev Path := List Name

structure Fs (β : Type) where
  files : List (Path × β)
  dirs : List Path
deriving DecidableEq

variable {β : Type}

namespace Fs

def file (fs : Fs β) (p : Path) : Option β := get fs.files p

def isDir (fs : Fs β) (p : Path) : Bool := p = [] || p ∈ fs.dirs

def exists_ (fs : Fs β) (p : Path) : Bool := fs.isDir p || (fs.file p).isSome

/-- Make one directory, unless it is there. -/
def mkdir (fs : Fs β) (p : Path) : Option (Fs β) :=
  if fs.isDir p then some fs
  else if (fs.file p).isSome || !fs.isDir p.dropLast then none
  else some { fs with dirs := p :: fs.dirs }

/-- Make directories, each under one that is there. -/
def mkdirEach (fs : Fs β) : List Path → Option (Fs β)
  | [] => some fs
  | p :: ps => (fs.mkdir p).bind fun fs => mkdirEach fs ps

/-- Make a directory and those it is in. -/
def mkdirs (fs : Fs β) (p : Path) : Option (Fs β) := fs.mkdirEach p.inits

def write (fs : Fs β) (p : Path) (content : β) : Option (Fs β) :=
  if fs.isDir p || !fs.isDir p.dropLast then none
  else some { fs with files := set fs.files p content }

def unlink (fs : Fs β) (p : Path) : Fs β := { fs with files := pop fs.files p }

/-- Whether a directory has entries. -/
def hasEntries (fs : Fs β) (p : Path) : Bool :=
  (fs.dirs ++ fs.files.map Prod.fst).any fun entry => entry.dropLast = p && entry ≠ []

/-- Remove a directory that is empty. -/
def rmdir (fs : Fs β) (p : Path) : Option (Fs β) :=
  if p = [] || !fs.isDir p || fs.hasEntries p then none
  else some { fs with dirs := fs.dirs.filter fun dir => dir ≠ p }

/-- Remove directories as long as they are empty. -/
def rmdirWhile (fs : Fs β) : List Path → Fs β
  | [] => fs
  | p :: ps =>
    match fs.rmdir p with
    | none => fs
    | some fs => fs.rmdirWhile ps

/-- Whether a file stands where the path needs a directory. -/
def blocked (fs : Fs β) (p : Path) : Bool := p.dropLast.inits.any fun dir => (fs.file dir).isSome

/-- The files below a directory. -/
def walk (fs : Fs β) (start : Path) : List Path :=
  (fs.files.map Prod.fst).filter fun p => start <+: p && p ≠ start

/-- Every directory and file is in a directory, and no path names both. -/
structure Wf (fs : Fs β) : Prop where
  nodup : (fs.files.map Prod.fst).Nodup
  dir : ∀ p ∈ fs.dirs, fs.isDir p.dropLast = true
  parent : ∀ p ∈ fs.files.map Prod.fst, fs.isDir p.dropLast = true
  disjoint : ∀ p ∈ fs.files.map Prod.fst, fs.isDir p = false

theorem isDir_iff {fs : Fs β} {p : Path} : fs.isDir p = true ↔ p = [] ∨ p ∈ fs.dirs := by
  simp [isDir]

theorem isDir_mono {fs fs' : Fs β} (h : fs.dirs ⊆ fs'.dirs) {p : Path} (hp : fs.isDir p = true) :
    fs'.isDir p = true :=
  isDir_iff.mpr ((isDir_iff.mp hp).imp_right fun hMem => h hMem)

theorem file_isSome_iff {fs : Fs β} {p : Path} : (fs.file p).isSome ↔ p ∈ fs.files.map Prod.fst :=
  get_isSome_iff

theorem mem_walk {fs : Fs β} {start p : Path} :
    p ∈ fs.walk start ↔ (fs.file p).isSome ∧ start <+: p ∧ p ≠ start := by
  rw [walk, List.mem_filter, file_isSome_iff]
  simp

/-! ## Directories -/

theorem Wf.mkdir {fs fs' : Fs β} (h : fs.Wf) {p : Path} (hMkdir : fs.mkdir p = some fs') :
    fs'.Wf ∧ fs'.files = fs.files := by
  rw [Fs.mkdir] at hMkdir
  split at hMkdir
  · obtain rfl := Option.some.inj hMkdir
    exact ⟨h, rfl⟩
  · split at hMkdir
    · cases hMkdir
    · rename_i hDir hFree
      obtain rfl := Option.some.inj hMkdir
      simp only [Bool.or_eq_true, Bool.not_eq_eq_eq_not, Bool.not_true, not_or, Bool.not_eq_false] at hFree
      have hMono : fs.dirs ⊆ p :: fs.dirs := List.subset_cons_self p fs.dirs
      refine ⟨⟨h.nodup, ?_, fun q hq => isDir_mono hMono (h.parent q hq), ?_⟩, rfl⟩
      · intro q hq
        rcases List.mem_cons.mp hq with rfl | hq
        · exact isDir_mono hMono hFree.2
        · exact isDir_mono hMono (h.dir q hq)
      · intro q hq
        rw [Bool.eq_false_iff]
        intro hDirQ
        rcases isDir_iff.mp hDirQ with rfl | hMem
        · exact Bool.eq_false_iff.mp (h.disjoint [] hq) rfl
        · rcases List.mem_cons.mp hMem with rfl | hMem
          · exact hFree.1 (file_isSome_iff.mpr hq)
          · exact Bool.eq_false_iff.mp (h.disjoint q hq) (isDir_iff.mpr (.inr hMem))

theorem Wf.mkdirEach {fs fs' : Fs β} (h : fs.Wf) {ps : List Path} (hMkdir : fs.mkdirEach ps = some fs') :
    fs'.Wf ∧ fs'.files = fs.files := by
  induction ps generalizing fs with
  | nil =>
    obtain rfl := Option.some.inj hMkdir
    exact ⟨h, rfl⟩
  | cons p ps ih =>
    obtain ⟨mid, hFirst, hRest⟩ := Option.bind_eq_some_iff.mp hMkdir
    obtain ⟨hMid, hFiles⟩ := h.mkdir hFirst
    obtain ⟨hFin, hFiles'⟩ := ih hMid hRest
    exact ⟨hFin, hFiles'.trans hFiles⟩

theorem Wf.rmdir {fs fs' : Fs β} (h : fs.Wf) {p : Path} (hRmdir : fs.rmdir p = some fs') :
    fs'.Wf ∧ fs'.files = fs.files := by
  rw [Fs.rmdir] at hRmdir
  split at hRmdir
  · cases hRmdir
  · rename_i hCan
    obtain rfl := Option.some.inj hRmdir
    simp only [Bool.or_eq_true, decide_eq_true_eq, Bool.not_eq_eq_eq_not, Bool.not_true, not_or] at hCan
    obtain ⟨⟨hNe, -⟩, hEmpty⟩ := hCan
    -- The directory of an entry stays, since the removed one has none.
    have hStays : ∀ q ∈ fs.dirs ++ fs.files.map Prod.fst, fs.isDir q.dropLast = true →
        Fs.isDir { fs with dirs := fs.dirs.filter fun dir => dir ≠ p } q.dropLast = true := by
      intro q hq hDir
      rcases isDir_iff.mp hDir with hRoot | hMem
      · exact isDir_iff.mpr (.inl hRoot)
      · refine isDir_iff.mpr (.inr (List.mem_filter.mpr ⟨hMem, ?_⟩))
        simp only [decide_eq_true_eq]
        rintro rfl
        refine hEmpty (List.any_eq_true.mpr ⟨q, hq, ?_⟩)
        simp only [Bool.and_eq_true, decide_eq_true_eq, true_and]
        rintro rfl
        exact hNe rfl
    refine ⟨⟨h.nodup, ?_, fun q hq => hStays q (List.mem_append_right _ hq) (h.parent q hq), ?_⟩, rfl⟩
    · intro q hq
      have hOld := (List.mem_filter.mp hq).1
      exact hStays q (List.mem_append_left _ hOld) (h.dir q hOld)
    · intro q hq
      rw [Bool.eq_false_iff]
      intro hDir
      refine Bool.eq_false_iff.mp (h.disjoint q hq) (isDir_mono ?_ hDir)
      exact fun dir hMem => (List.mem_filter.mp hMem).1

theorem Wf.rmdirWhile {fs : Fs β} (h : fs.Wf) (ps : List Path) :
    (fs.rmdirWhile ps).Wf ∧ (fs.rmdirWhile ps).files = fs.files := by
  induction ps generalizing fs with
  | nil => exact ⟨h, rfl⟩
  | cons p ps ih =>
    rw [Fs.rmdirWhile]
    cases hRmdir : fs.rmdir p with
    | none => exact ⟨h, rfl⟩
    | some mid =>
      obtain ⟨hMid, hFiles⟩ := h.rmdir hRmdir
      obtain ⟨hFin, hFiles'⟩ := ih hMid
      exact ⟨hFin, hFiles'.trans hFiles⟩

/-! ## Files -/

theorem write_isDir {fs fs' : Fs β} {p : Path} {content : β} (h : fs.write p content = some fs') :
    fs.isDir p = false ∧ fs.isDir p.dropLast = true ∧ fs' = { fs with files := set fs.files p content } := by
  rw [Fs.write] at h
  split at h
  · cases h
  · rename_i hCan
    simp only [Bool.or_eq_true, Bool.not_eq_eq_eq_not, Bool.not_true, not_or, Bool.not_eq_true,
      Bool.not_eq_false] at hCan
    exact ⟨hCan.1, hCan.2, (Option.some.inj h).symm⟩

theorem mem_set {d : List (Path × β)} {p q : Path} {content : β} :
    q ∈ (set d p content).map Prod.fst ↔ q = p ∨ q ∈ d.map Prod.fst := by
  rw [map_fst_set]
  split
  · rename_i hMem
    exact ⟨.inr, fun h => h.elim (fun hEq => hEq ▸ hMem) id⟩
  · rw [List.mem_append, List.mem_singleton, or_comm]

theorem Wf.write {fs fs' : Fs β} (h : fs.Wf) {p : Path} {content : β} (hWrite : fs.write p content = some fs') :
    fs'.Wf ∧ fs'.file p = some content ∧ ∀ q, q ≠ p → fs'.file q = fs.file q := by
  obtain ⟨hNotDir, hParent, rfl⟩ := write_isDir hWrite
  refine ⟨⟨?_, h.dir, ?_, ?_⟩, get_set_self .., fun q hq => get_set_ne _ _ hq⟩
  · rw [map_fst_set]
    split
    · exact h.nodup
    · rename_i hNew
      exact List.Nodup.append h.nodup (List.nodup_singleton p) (List.disjoint_singleton.mpr hNew)
  · intro q hq
    rcases mem_set.mp hq with rfl | hq
    · exact hParent
    · exact h.parent q hq
  · intro q hq
    rcases mem_set.mp hq with rfl | hq
    · exact hNotDir
    · exact h.disjoint q hq

theorem Wf.unlink {fs : Fs β} (h : fs.Wf) (p : Path) :
    (fs.unlink p).Wf ∧ (fs.unlink p).file p = none ∧ ∀ q, q ≠ p → (fs.unlink p).file q = fs.file q := by
  have hSubset : (pop fs.files p).map Prod.fst ⊆ fs.files.map Prod.fst :=
    (List.filter_sublist.map Prod.fst).subset
  refine ⟨⟨?_, h.dir, fun q hq => h.parent q (hSubset hq), fun q hq => h.disjoint q (hSubset hq)⟩,
    get_pop_self .., fun q hq => get_pop_ne _ hq⟩
  exact List.Nodup.sublist (List.filter_sublist.map Prod.fst) h.nodup

/-- What leads to a directory is a directory. -/
theorem Wf.isDir_of_isDir {fs : Fs β} (h : fs.Wf) {p start : Path} (hDir : fs.isDir p = true) (hStart : start <+: p) :
    fs.isDir start = true := by
  induction p using List.reverseRecOn with
  | nil =>
    rw [List.prefix_nil.mp hStart]
    rfl
  | append_singleton p name ih =>
    rcases List.prefix_concat_iff.mp hStart with rfl | hLe
    · exact hDir
    · refine ih ?_ hLe
      rcases isDir_iff.mp hDir with hNil | hMem
      · simp at hNil
      · have hParent := h.dir _ hMem
        rwa [List.dropLast_concat] at hParent

theorem Wf.isDir_of_file {fs : Fs β} (h : fs.Wf) {p start : Path} (hFile : (fs.file p).isSome)
    (hStart : start <+: p) (hNe : start ≠ p) : fs.isDir start = true := by
  refine h.isDir_of_isDir (h.parent p (file_isSome_iff.mp hFile)) ?_
  rcases List.eq_nil_or_concat p with rfl | ⟨q, name, rfl⟩
  · exact hStart
  · rw [List.concat_eq_append] at hStart hNe ⊢
    rw [List.dropLast_concat]
    exact (List.prefix_concat_iff.mp hStart).resolve_left hNe

end Fs

end Bajutsu.FileSystem
