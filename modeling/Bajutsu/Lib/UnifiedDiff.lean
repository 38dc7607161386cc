import Bajutsu.Lib.PyText

/-!
# The unified diff that git writes

A diff is a list of file sections: a header with both names, extended header lines, and the hunks that show what was
added and removed between lines that stayed. A line of a file is any text without a newline, and it may hold other
characters at which a reader breaks lines.
-/

namespace Bajutsu.UnifiedDiff

open PyText

abbrev Text := List Char

/-! ## Breaking a text into lines -/

/-- The line feed, the carriage return and the other boundaries of `str.splitlines`. -/
def breakCodes : List Nat := [0x0A, 0x0B, 0x0C, 0x0D, 0x1C, 0x1D, 0x1E, 0x85, 0x2028, 0x2029]

def isBreak (c : Char) : Bool := c.toNat ∈ breakCodes

/-- A character in front of the first line. -/
def glue (c : Char) : List Text → List Text
  | [] => [[c]]
  | line :: lines => (c :: line) :: lines

def splitlines : Text → List Text
  | [] => []
  | '\r' :: '\n' :: cs => [] :: splitlines cs
  | c :: cs => if isBreak c then [] :: splitlines cs else glue c (splitlines cs)

/-- What a line of a file is read back as. -/
def parts (line : Text) : List Text := splitlines (line ++ ['\n'])

theorem splitlines_newline (text : Text) : splitlines ('\n' :: text) = [] :: splitlines text := rfl

theorem splitlines_break {c : Char} (h : isBreak c = true) {cs : Text} (hPair : c = '\r' → cs.head? ≠ some '\n') :
    splitlines (c :: cs) = [] :: splitlines cs := by
  rw [splitlines.eq_def]
  split
  · rename_i hNil
    cases hNil
  · rename_i hCons
    cases hCons
    exact absurd rfl (hPair rfl)
  · rename_i hCons
    cases hCons
    rw [if_pos h]

theorem splitlines_kept {c : Char} (h : isBreak c = false) (cs : Text) :
    splitlines (c :: cs) = glue c (splitlines cs) := by
  rw [splitlines.eq_def]
  split
  · rename_i hNil
    cases hNil
  · rename_i hCons
    cases hCons
    exact absurd h (by decide)
  · rename_i hCons
    cases hCons
    rw [if_neg (by simp [h])]

theorem parts_ne_nil (line : Text) : parts line ≠ [] := by
  rw [parts]
  induction line using splitlines.induct with
  | case1 => exact List.cons_ne_nil _ _
  | case2 line ih => exact List.cons_ne_nil _ _
  | case3 c line hPair hBreak ih =>
    intro hNil
    rw [List.cons_append, splitlines.eq_def] at hNil
    split at hNil
    · rename_i hEmpty
      cases hEmpty
    · cases hNil
    · rename_i hCons
      cases hCons
      rw [if_pos hBreak] at hNil
      cases hNil
  | case4 c line hPair hBreak ih =>
    rw [List.cons_append, splitlines_kept (by simpa using hBreak)]
    cases splitlines (line ++ ['\n']) <;> exact List.cons_ne_nil _ _

/-- Lines are read one at a time: none reaches across a newline. -/
theorem splitlines_append (line rest : Text) : splitlines (line ++ '\n' :: rest) = parts line ++ splitlines rest := by
  rw [parts]
  induction line using splitlines.induct with
  | case1 => rfl
  | case2 line ih =>
    rw [List.cons_append, List.cons_append, splitlines, ih]
    rfl
  | case3 c line hPair hBreak ih =>
    by_cases hReturn : c = '\r' ∧ line = []
    · obtain ⟨rfl, rfl⟩ := hReturn
      rfl
    · have hHead (more : Text) : c = '\r' → (line ++ '\n' :: more).head? ≠ some '\n' := by
        rintro rfl hNewline
        cases line with
        | nil => exact hReturn ⟨rfl, rfl⟩
        | cons d line =>
          cases hNewline
          exact hPair line rfl rfl
      rw [List.cons_append, List.cons_append, splitlines_break hBreak (hHead rest), splitlines_break hBreak (hHead []), ih]
      rfl
  | case4 c line hPair hBreak ih =>
    have hNoBreak : isBreak c = false := by simpa using hBreak
    rw [List.cons_append, List.cons_append, splitlines_kept hNoBreak, splitlines_kept hNoBreak, ih]
    cases hParts : splitlines (line ++ ['\n']) with
    | nil => exact absurd hParts (parts_ne_nil line)
    | cons first parts => rfl

/-- A text that is broken nowhere stays in front of what follows it on its line. -/
theorem parts_append {front : Text} (hFront : ∀ c ∈ front, isBreak c = false) (line : Text) :
    parts (front ++ line) = (parts line).modifyHead (front ++ ·) := by
  induction front with
  | nil => cases hParts : parts line <;> simp [hParts]
  | cons c front ih =>
    obtain ⟨hc, hFront⟩ := List.forall_mem_cons.mp hFront
    have hRest := ih hFront
    rw [parts] at hRest
    rw [List.cons_append, parts, List.cons_append, splitlines_kept hc, hRest]
    cases hParts : parts line with
    | nil => exact absurd hParts (parts_ne_nil line)
    | cons first rest => rfl

theorem parts_unbroken {line : Text} (h : ∀ c ∈ line, isBreak c = false) : parts line = [line] := by
  have hParts := parts_append h []
  rwa [List.append_nil, show parts [] = [[]] from rfl, List.modifyHead_cons, List.append_nil] at hParts

/-- Lines, each ended by a newline. -/
def unlines (lines : List Text) : Text := lines.flatMap fun line => line ++ ['\n']

theorem splitlines_unlines (lines : List Text) : splitlines (unlines lines) = lines.flatMap parts := by
  induction lines with
  | nil => rfl
  | cons line lines ih =>
    rw [unlines, List.flatMap_cons, List.append_assoc, List.singleton_append, splitlines_append, ← unlines, ih,
      List.flatMap_cons]

/-! ## The format -/

inductive Sign where
  | context
  | added
  | removed
  deriving DecidableEq

def Sign.char : Sign → Char
  | context => ' '
  | added => '+'
  | removed => '-'

/-- A line of a file in a hunk. -/
structure HunkLine where
  sign : Sign
  text : Text
  oneLine : '\n' ∉ text
  /-- The file ends with this line, without a newline. -/
  unended : Bool := false

def noNewline : Text := "\\ No newline at end of file".toList

def HunkLine.lines (line : HunkLine) : List Text :=
  (line.sign.char :: line.text) :: if line.unended then [noNewline] else []

structure Range where
  start : Nat
  count : Nat

def Range.text (range : Range) : Text :=
  if range.count = 1 then decimal range.start else decimal range.start ++ ',' :: decimal range.count

structure Hunk where
  old : Range
  new : Range
  /-- The line of the file that the hunk stands under. -/
  heading : Text
  oneLine : '\n' ∉ heading
  body : List HunkLine

def Hunk.front (hunk : Hunk) : Text := "@@ -".toList ++ hunk.old.text ++ " +".toList ++ hunk.new.text ++ " @@".toList

def Hunk.header (hunk : Hunk) : Text :=
  if hunk.heading = [] then hunk.front else hunk.front ++ ' ' :: hunk.heading

def Hunk.lines (hunk : Hunk) : List Text := hunk.header :: hunk.body.flatMap HunkLine.lines

def isPrintable (c : Char) : Bool := 0x20 ≤ c.toNat && c.toNat < 0x7F

/-- A path as git writes it: quoted with escapes when it holds anything but plain printable characters. -/
structure Path where
  text : Text
  quoted : Bool := false
  printable : ∀ c ∈ text, isPrintable c = true
  plain : quoted = false → '"' ∉ text ∧ '\\' ∉ text

/-- The path under `a/` or `b/`. -/
def Path.label (path : Path) (side : Char) : Text :=
  if path.quoted then '"' :: side :: '/' :: (path.text ++ ['"']) else side :: '/' :: path.text

inductive Keyword where
  | oldMode | newMode | deletedFileMode | newFileMode | copyFrom | copyTo | renameFrom | renameTo
  | similarityIndex | dissimilarityIndex | index

def Keyword.text : Keyword → Text
  | oldMode => "old mode ".toList
  | newMode => "new mode ".toList
  | deletedFileMode => "deleted file mode ".toList
  | newFileMode => "new file mode ".toList
  | copyFrom => "copy from ".toList
  | copyTo => "copy to ".toList
  | renameFrom => "rename from ".toList
  | renameTo => "rename to ".toList
  | similarityIndex => "similarity index ".toList
  | dissimilarityIndex => "dissimilarity index ".toList
  | index => "index ".toList

structure Extended where
  keyword : Keyword
  value : Text
  printable : ∀ c ∈ value, isPrintable c = true

def Extended.line (extended : Extended) : Text := extended.keyword.text ++ extended.value

/-- The change of one file. A created file has no old side, and a deleted one no new side. -/
structure Section where
  old : Path
  new : Path
  created : Bool := false
  deleted : Bool := false
  present : ¬(created = true ∧ deleted = true)
  extended : List Extended
  hunks : List Hunk

def devNull : Text := "/dev/null".toList

/-- A name with a space is followed by a tab. -/
def sideName (absent : Bool) (label : Text) : Text :=
  if absent then devNull else if ' ' ∈ label then label ++ ['\t'] else label

def Section.header (file : Section) : Text :=
  "diff --git ".toList ++ file.old.label 'a' ++ ' ' :: file.new.label 'b'

def Section.sides (file : Section) : List Text :=
  if file.hunks = [] then []
  else ["--- ".toList ++ sideName file.created (file.old.label 'a'), "+++ ".toList ++ sideName file.deleted (file.new.label 'b')]

def Section.lines (file : Section) : List Text :=
  file.header :: file.extended.map Extended.line ++ file.sides ++ file.hunks.flatMap Hunk.lines

abbrev Diff := List Section

def Diff.text (diff : Diff) : Text := unlines (diff.flatMap Section.lines)

/-- The lines of files that were added or removed. -/
def Section.changed (file : Section) : List Text :=
  file.hunks.flatMap fun hunk => (hunk.body.filter (·.sign ≠ .context)).map HunkLine.text

end Bajutsu.UnifiedDiff
