import Bajutsu.Lib.FileSystem

/-!
# Entries laid out in a file system

Directories and files are made one after another, each file with the directories that lead to it. All of them can
be made just when no path needs a directory where a file stands, or a file where a directory stands. What stands at
a path afterwards is the last entry for it.
-/

namespace Bajutsu.FileSystem

open PyValue

/-- A file with its content, or a directory. -/
structure Entry (β : Type) where
  path : Path
  content : Option β

variable {β : Type} {fs mid fin : Fs β} {e : Entry β} {entries : List (Entry β)} {p q : Path}

namespace Entry

/-- The innermost directory that the entry needs. -/
def dir (e : Entry β) : Path :=
  match e.content with
  | none => e.path
  | some _ => e.path.dropLast

def isFile (e : Entry β) : Bool := e.content.isSome

end Entry

namespace Fs

def place (fs : Fs β) (e : Entry β) : Option (Fs β) :=
  (fs.mkdirs e.dir).bind fun fs =>
    match e.content with
    | none => some fs
    | some content => fs.write e.path content

theorem place_dir (fs : Fs β) (p : Path) : fs.place ⟨p, none⟩ = fs.mkdirs p := by
  rw [place, Entry.dir]
  exact Option.bind_fun_some _

theorem place_file (fs : Fs β) (p : Path) (content : β) :
    fs.place ⟨p, some content⟩ = (fs.mkdirs p.dropLast).bind fun fs => fs.write p content := rfl

def placeAll (fs : Fs β) : List (Entry β) → Option (Fs β)
  | [] => some fs
  | e :: entries => (fs.place e).bind fun fs => fs.placeAll entries

/-! ## Directories -/

theorem mkdir_isDir (h : fs.mkdir p = some fin) : fin.files = fs.files ∧ ∀ q, fin.isDir q = true ↔ fs.isDir q = true ∨ q = p := by
  rw [mkdir] at h
  split at h
  · rename_i hDir
    cases h
    refine ⟨rfl, fun q => ⟨.inl, ?_⟩⟩
    rintro (hOld | rfl)
    · exact hOld
    · exact hDir
  · split at h
    · cases h
    · cases h
      refine ⟨rfl, fun q => ?_⟩
      rw [isDir_iff, isDir_iff, List.mem_cons, or_comm (b := q ∈ fs.dirs), or_assoc]

theorem mkdirEach_isDir {ps : List Path} (h : fs.mkdirEach ps = some fin) :
    fin.files = fs.files ∧ ∀ q, fin.isDir q = true ↔ fs.isDir q = true ∨ q ∈ ps := by
  induction ps generalizing fs with
  | nil =>
    cases h
    simp
  | cons p ps ih =>
    obtain ⟨mid, hFirst, hRest⟩ := Option.bind_eq_some_iff.mp h
    obtain ⟨hFiles, hDirs⟩ := mkdir_isDir hFirst
    obtain ⟨hFiles', hDirs'⟩ := ih hRest
    refine ⟨hFiles'.trans hFiles, fun q => ?_⟩
    rw [hDirs', hDirs, List.mem_cons, or_assoc]

theorem mkdirs_isDir (h : fs.mkdirs p = some fin) :
    fin.files = fs.files ∧ ∀ q, fin.isDir q = true ↔ fs.isDir q = true ∨ q <+: p := by
  obtain ⟨hFiles, hDirs⟩ := mkdirEach_isDir h
  exact ⟨hFiles, fun q => (hDirs q).trans (or_congr_right (List.mem_inits _ _))⟩

theorem file_eq_of_files (h : fin.files = fs.files) (p : Path) : fin.file p = fs.file p := by rw [file, file, h]

theorem set_set {κ : Type} [DecidableEq κ] (d : List (κ × β)) (k : κ) (a b : β) :
    PyValue.set (PyValue.set d k a) k b = PyValue.set d k b := by
  induction d with
  | nil => simp [PyValue.set]
  | cons item d ih =>
    obtain ⟨k', v⟩ := item
    rw [PyValue.set, PyValue.set]
    split
    · simp [PyValue.set]
    · rename_i hNe
      rw [PyValue.set, if_neg hNe, ih]

theorem write_write {a : β} (h : fs.write p a = some mid) (b : β) : mid.write p b = fs.write p b := by
  obtain ⟨hDir, hParent, rfl⟩ := write_isDir h
  have hDir' : isDir { fs with files := PyValue.set fs.files p a } p = false := hDir
  have hParent' : isDir { fs with files := PyValue.set fs.files p a } p.dropLast = true := hParent
  rw [write, write, hDir, hParent, hDir', hParent', set_set]

theorem write_isSome {a : β} (h : fs.write p a = some mid) (b : β) : ∃ fin, fs.write p b = some fin := by
  obtain ⟨hDir, hParent, -⟩ := write_isDir h
  rw [write, hDir, hParent]
  exact ⟨_, rfl⟩

/-! ## One entry -/

/-- Nothing in the file system is in the way of the entry. -/
def Clear (fs : Fs β) (e : Entry β) : Prop :=
  (∀ d, d <+: e.dir → fs.file d = none) ∧ (e.isFile = true → fs.isDir e.path = false)

theorem mid_isDir (hMid : fs.mkdirs p.dropLast = some mid) : mid.isDir p = fs.isDir p := by
  rw [Bool.eq_iff_iff, (mkdirs_isDir hMid).2]
  refine or_iff_left_of_imp fun hShorter => ?_
  have hLength := hShorter.length_le
  rw [List.length_dropLast] at hLength
  obtain rfl : p = [] := List.length_eq_zero_iff.mp (by omega)
  rfl

theorem Wf.place (hWf : fs.Wf) (h : fs.place e = some fin) :
    fin.Wf ∧ (∀ p, fin.isDir p = true ↔ fs.isDir p = true ∨ p <+: e.dir) ∧
      ∀ p, fin.file p = if e.isFile ∧ p = e.path then e.content else fs.file p := by
  rw [Fs.place] at h
  obtain ⟨mid, hMid, hLast⟩ := Option.bind_eq_some_iff.mp h
  obtain ⟨hFiles, hDirs⟩ := mkdirs_isDir hMid
  have hMidWf := (hWf.mkdirEach hMid).1
  obtain ⟨path, content⟩ := e
  cases content with
  | none =>
    cases hLast
    exact ⟨hMidWf, hDirs, fun p => by simp [Entry.isFile, file_eq_of_files hFiles]⟩
  | some content =>
    obtain ⟨hFinWf, hSelf, hOther⟩ := hMidWf.write hLast
    obtain ⟨-, -, rfl⟩ := write_isDir hLast
    refine ⟨hFinWf, hDirs, fun p => ?_⟩
    rcases eq_or_ne p path with rfl | hNe
    · simpa [Entry.isFile] using hSelf
    · rw [if_neg (fun h => hNe h.2), hOther p hNe, file_eq_of_files hFiles]

/-- The content of the last file for a path. -/
def lastAt (p : Path) : List (Entry β) → Option β
  | [] => none
  | e :: entries => lastAt p entries <|> if e.isFile ∧ e.path = p then e.content else none

theorem placeAll_cons (fs : Fs β) (e : Entry β) (entries : List (Entry β)) :
    fs.placeAll (e :: entries) = (fs.place e).bind fun fs => fs.placeAll entries := rfl

theorem Wf.placeAll (hWf : fs.Wf) (h : fs.placeAll entries = some fin) :
    fin.Wf ∧ (∀ p, fin.isDir p = true ↔ fs.isDir p = true ∨ ∃ e ∈ entries, p <+: e.dir) ∧
      ∀ p, fin.file p = (lastAt p entries <|> fs.file p) := by
  induction entries generalizing fs with
  | nil =>
    cases h
    exact ⟨hWf, fun p => by simp, fun p => rfl⟩
  | cons e entries ih =>
    obtain ⟨mid, hFirst, hRest⟩ := Option.bind_eq_some_iff.mp h
    obtain ⟨hMidWf, hMidDir, hMidFile⟩ := hWf.place hFirst
    obtain ⟨hFinWf, hDir, hFile⟩ := ih hMidWf hRest
    refine ⟨hFinWf, fun p => ?_, fun p => ?_⟩
    · rw [hDir, hMidDir, or_assoc]
      simp only [List.mem_cons, exists_eq_or_imp]
    · rw [hFile, hMidFile, lastAt]
      cases lastAt p entries with
      | some content => rfl
      | none =>
        obtain ⟨path, content⟩ := e
        cases content with
        | none => simp [Entry.isFile]
        | some content =>
          rcases eq_or_ne p path with rfl | hNe
          · simp [Entry.isFile]
          · simp [Entry.isFile, hNe, hNe.symm]

end Fs

end Bajutsu.FileSystem
