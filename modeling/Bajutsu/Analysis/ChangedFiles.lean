import Bajutsu.Lib.UnifiedDiff

/-!
# The files that a diff changes

`parse_diff` reads a diff line by line and keeps, for each file, the added and removed lines of its hunks. It breaks the
text where `str.splitlines` does, which is at more characters than the newlines that end a diff's lines, so a changed
line is kept up to its first break only.
-/

namespace Bajutsu.Analysis

open PyText UnifiedDiff

structure ChangedFile where
  path : Text
  lines : List Text
  binary : Bool := false

def devNullPath : Text := "/dev/null".toList

/-- The path of a `--- a/x` or `+++ b/x` header; `none` for the side that does not exist. -/
def diffHeaderPath (raw : Text) : Option Text :=
  let field := strip (raw.takeWhile (· ≠ '\t'))
  if field = devNullPath then none
  else if "a/".toList.isPrefixOf field || "b/".toList.isPrefixOf field then some (field.drop 2)
  else some field

/-- `text.partition(separator)`: what comes before the first separator, and after it. -/
def partition (separator : Text) : Text → Text × Text
  | [] => ([], [])
  | c :: cs =>
    if separator.isPrefixOf (c :: cs) then ([], (c :: cs).drop separator.length)
    else ((c :: (partition separator cs).1), (partition separator cs).2)

def removePrefix (start text : Text) : Text := if start.isPrefixOf text then text.drop start.length else text

def removeSuffix (ending text : Text) : Text :=
  if ending.isSuffixOf text then text.take (text.length - ending.length) else text

/-- The path of a `Binary files a/x and b/x differ` line: its new side, else the old. -/
def binaryPath (line : Text) : Option Text :=
  let (old, new) := partition " and ".toList (removeSuffix " differ".toList (removePrefix "Binary files ".toList line))
  match (diffHeaderPath new).filter (· ≠ []) with
  | some path => some path
  | none => (diffHeaderPath old).filter (· ≠ [])

/-- The files that were read, and the section that is being read. -/
structure Reading where
  files : List ChangedFile := []
  path : Option Text := none
  lines : List Text := []
  binary : Bool := false
  inHunk : Bool := false

def Reading.current (st : Reading) : List ChangedFile :=
  (st.path.map fun path => (⟨path, st.lines, st.binary⟩ : ChangedFile)).toList

def Reading.flush (st : Reading) : Reading := { files := st.files ++ st.current }

def startsFile (line : Text) : Bool := "diff --git ".toList.isPrefixOf line

def marksBinary (line : Text) : Bool :=
  "Binary files ".toList.isPrefixOf line || "GIT binary patch".toList.isPrefixOf line

/-- The body of an added or removed line. -/
def content : Text → Option Text
  | '+' :: body => some body
  | '-' :: body => some body
  | _ => none

/-- The path that a section's first line names. -/
def seededPath (line : Text) : Option Text := some (partition " b/".toList line).2 |>.filter (· ≠ [])

def readLine (st : Reading) (line : Text) : Reading :=
  if startsFile line then { st.flush with path := seededPath line }
  else if "@@".toList.isPrefixOf line then { st with inHunk := true }
  else if marksBinary line then
    { st with binary := true, path := match st.path.filter (· ≠ []) with
      | some path => some path
      | none => binaryPath line }
  else if !st.inHunk && "+++ ".toList.isPrefixOf line then
    match diffHeaderPath (line.drop 4) with
    | some path => { st with path := some path }
    | none => st
  else if !st.inHunk && "--- ".toList.isPrefixOf line then
    match st.path, diffHeaderPath (line.drop 4) with
    | none, some path => { st with path := some path }
    | _, _ => st
  else if st.inHunk then
    match content line with
    | some body => { st with lines := st.lines ++ [body] }
    | none => st
  else st

def parseDiff (text : Text) : List ChangedFile := ((splitlines text).foldl readLine {}).flush.files

/-! ## What is kept of a section -/

/-- A break inside a line of a file starts what reads as a file section or as a binary change. -/
def Derails (part : Text) : Prop := startsFile part = true ∨ marksBinary part = true

instance (part : Text) : Decidable (Derails part) := inferInstanceAs (Decidable (_ ∨ _))

/-- What is kept of a line of a file: its text up to the first break, when it is a changed line, and each later part
that reads as a changed line of its own. -/
def keptOf (line : HunkLine) : List Text :=
  (if line.sign = .context then [] else (parts line.text).head?.toList) ++ (parts line.text).tail.filterMap content

def keptOfHunk (hunk : Hunk) : List Text :=
  (parts hunk.heading).tail.filterMap content ++ hunk.body.flatMap keptOf

def kept (file : Section) : List Text := file.hunks.flatMap keptOfHunk

/-- The path a section is read under. -/
def pathOf (file : Section) : Option Text :=
  let seeded := seededPath file.header
  if file.hunks = [] then seeded
  else
    let old := diffHeaderPath (sideName file.created (file.old.label 'a'))
    let new := diffHeaderPath (sideName file.deleted (file.new.label 'b'))
    new.or (seeded.or old)

/-- No line of a file derails the reading. -/
def Tame (diff : Diff) : Prop :=
  ∀ file ∈ diff, ∀ hunk ∈ file.hunks, (∀ part ∈ (parts hunk.heading).tail, ¬Derails part) ∧
    ∀ line ∈ hunk.body, ∀ part ∈ (parts line.text).tail, ¬Derails part

/-! ## The parts of what git writes -/

theorem isBreak_of_printable {c : Char} (h : isPrintable c = true) : isBreak c = false := by
  have hCodes : ∀ n ∈ breakCodes, ¬(0x20 ≤ n ∧ n < 0x7F) := by decide
  have hRange : 0x20 ≤ c.toNat ∧ c.toNat < 0x7F := by simpa [isPrintable] using h
  cases hBreak : isBreak c with
  | false => rfl
  | true => exact absurd hRange (hCodes c.toNat (by simpa [isBreak] using hBreak))

/-- Held by a text that is broken nowhere. -/
def Unbroken (text : Text) : Prop := ∀ c ∈ text, isBreak c = false

theorem Unbroken.append {front rest : Text} (hFront : Unbroken front) (hRest : Unbroken rest) : Unbroken (front ++ rest) :=
  fun c hMem => (List.mem_append.mp hMem).elim (hFront c) (hRest c)

theorem Unbroken.cons {c : Char} (hc : isBreak c = false) {rest : Text} (hRest : Unbroken rest) : Unbroken (c :: rest) :=
  List.forall_mem_cons.mpr ⟨hc, hRest⟩

theorem unbroken_of_printable {text : Text} (h : ∀ c ∈ text, isPrintable c = true) : Unbroken text :=
  fun c hMem => isBreak_of_printable (h c hMem)

theorem unbroken_of_all {text : Text} (h : text.all (!isBreak ·) = true) : Unbroken text := by
  intro c hMem
  simpa using List.all_eq_true.mp h c hMem

theorem label_unbroken (path : Path) {side : Char} (hSide : isBreak side = false) : Unbroken (path.label side) := by
  have hText : Unbroken path.text := unbroken_of_printable path.printable
  rw [Path.label]
  split
  · exact .cons rfl (.cons hSide (.cons rfl (hText.append (unbroken_of_all rfl))))
  · exact .cons hSide (.cons rfl hText)

theorem sideName_unbroken (absent : Bool) {label : Text} (h : Unbroken label) : Unbroken (sideName absent label) := by
  rw [sideName]
  split
  · exact unbroken_of_all rfl
  · split
    · exact h.append (unbroken_of_all rfl)
    · exact h

theorem header_unbroken (file : Section) : Unbroken file.header := by
  apply Unbroken.append
  · exact (unbroken_of_all rfl).append (label_unbroken file.old rfl)
  · exact .cons rfl (label_unbroken file.new rfl)

theorem extended_unbroken (extended : Extended) : Unbroken extended.line := by
  apply Unbroken.append
  · cases extended.keyword <;> exact unbroken_of_all rfl
  · exact unbroken_of_printable extended.printable

theorem decimal_unbroken (n : Nat) : Unbroken (decimal n) := by
  intro c hMem
  obtain ⟨d, hd, rfl⟩ := mem_decimal hMem
  have hDigits : ∀ d < 10, isBreak (Nat.digitChar d) = false := by decide
  exact hDigits d hd

theorem range_unbroken (range : Range) : Unbroken range.text := by
  rw [Range.text]
  split
  · exact decimal_unbroken _
  · exact (decimal_unbroken _).append (.cons rfl (decimal_unbroken _))

theorem front_unbroken (hunk : Hunk) : Unbroken hunk.front := by
  apply Unbroken.append
  · apply Unbroken.append
    · apply Unbroken.append
      · exact (unbroken_of_all rfl).append (range_unbroken hunk.old)
      · exact unbroken_of_all rfl
    · exact range_unbroken hunk.new
  · exact unbroken_of_all rfl

/-! ## Reading one section -/

theorem readLine_header (st : Reading) (file : Section) :
    readLine st file.header = { st.flush with path := seededPath file.header } := rfl

theorem readLine_extended {st : Reading} (hOut : st.inHunk = false) (extended : Extended) :
    readLine st extended.line = st := by
  obtain ⟨files, path, lines, binary, inHunk⟩ := st
  obtain rfl : inHunk = false := hOut
  obtain ⟨keyword, value, hPrintable⟩ := extended
  cases keyword <;> rfl

theorem readLine_old {st : Reading} (hOut : st.inHunk = false) (name : Text) :
    readLine st ("--- ".toList ++ name) = { st with path := st.path.or (diffHeaderPath name) } := by
  obtain ⟨files, path, lines, binary, inHunk⟩ := st
  obtain rfl : inHunk = false := hOut
  have hRead : readLine ⟨files, path, lines, binary, false⟩ ("--- ".toList ++ name) =
      match path, diffHeaderPath name with
      | none, some path => ⟨files, some path, lines, binary, false⟩
      | _, _ => ⟨files, path, lines, binary, false⟩ := rfl
  rw [hRead]
  cases path <;> cases diffHeaderPath name <;> rfl

theorem readLine_new {st : Reading} (hOut : st.inHunk = false) (name : Text) :
    readLine st ("+++ ".toList ++ name) = { st with path := (diffHeaderPath name).or st.path } := by
  obtain ⟨files, path, lines, binary, inHunk⟩ := st
  obtain rfl : inHunk = false := hOut
  have hRead : readLine ⟨files, path, lines, binary, false⟩ ("+++ ".toList ++ name) =
      match diffHeaderPath name with
      | some path => ⟨files, some path, lines, binary, false⟩
      | none => ⟨files, path, lines, binary, false⟩ := rfl
  rw [hRead]
  cases diffHeaderPath name <;> rfl

theorem readLine_content {st : Reading} (hIn : st.inHunk = true) {part : Text} (h : ¬Derails part) :
    readLine st part = { st with lines := st.lines ++ (content part).toList } := by
  obtain ⟨files, path, lines, binary, inHunk⟩ := st
  obtain rfl : inHunk = true := hIn
  obtain ⟨hFile, hBinary⟩ := not_or.mp h
  rw [readLine, if_neg hFile]
  by_cases hHunk : "@@".toList.isPrefixOf part = true
  · rw [if_pos hHunk]
    obtain ⟨rest, rfl⟩ := List.isPrefixOf_iff_prefix.mp hHunk
    simp [content]
  · rw [if_neg hHunk, if_neg hBinary]
    cases content part <;> simp

theorem foldl_content {st : Reading} (hIn : st.inHunk = true) {found : List Text} (h : ∀ part ∈ found, ¬Derails part) :
    found.foldl readLine st = { st with lines := st.lines ++ found.filterMap content } := by
  induction found generalizing st with
  | nil => simp
  | cons part found ih =>
    obtain ⟨hPart, hFound⟩ := List.forall_mem_cons.mp h
    rw [List.foldl_cons, readLine_content hIn hPart]
    refine (ih (by exact hIn) hFound).trans ?_
    cases hContent : content part <;> simp [hContent]

theorem not_derails_sign (sign : Sign) (text : Text) : ¬Derails (sign.char :: text) := by
  rintro (h | h)
  · cases sign <;> cases h
  · cases sign <;> cases h

theorem parts_hunkLine (line : HunkLine) {first : Text} {rest : List Text} (h : parts line.text = first :: rest) :
    line.lines.flatMap parts = (line.sign.char :: first) :: rest ++ if line.unended then [noNewline] else [] := by
  have hSign : Unbroken [line.sign.char] := .cons (by cases line.sign <;> rfl) (unbroken_of_all rfl)
  have hFirst : parts (line.sign.char :: line.text) = (line.sign.char :: first) :: rest := by
    rw [← List.singleton_append, parts_append hSign, h]
    rfl
  rw [HunkLine.lines, List.flatMap_cons, hFirst]
  cases line.unended <;> rfl

theorem content_sign (sign : Sign) (text : Text) :
    content (sign.char :: text) = if sign = .context then none else some text := by
  cases sign <;> rfl

theorem filterMap_hunkLine (line : HunkLine) : (line.lines.flatMap parts).filterMap content = keptOf line := by
  obtain ⟨first, rest, hParts⟩ := List.exists_cons_of_ne_nil (parts_ne_nil line.text)
  have hMark : (if line.unended then [noNewline] else []).filterMap content = [] := by cases line.unended <;> rfl
  rw [parts_hunkLine line hParts, List.filterMap_append, hMark, List.append_nil, keptOf, hParts, List.filterMap_cons,
    content_sign]
  split <;> simp_all

theorem tame_hunkLine {line : HunkLine} (h : ∀ part ∈ (parts line.text).tail, ¬Derails part) :
    ∀ part ∈ line.lines.flatMap parts, ¬Derails part := by
  obtain ⟨first, rest, hParts⟩ := List.exists_cons_of_ne_nil (parts_ne_nil line.text)
  rw [hParts] at h
  rw [parts_hunkLine line hParts]
  intro part hMem
  obtain hMem | hMem := List.mem_append.mp hMem
  · obtain rfl | hMem := List.mem_cons.mp hMem
    · exact not_derails_sign line.sign first
    · exact h part hMem
  · split at hMem
    · obtain rfl := List.mem_singleton.mp hMem
      rintro (h | h) <;> cases h
    · cases hMem

theorem parts_hunkHeader (hunk : Hunk) : ∃ more, parts hunk.header = (hunk.front ++ more) :: (parts hunk.heading).tail := by
  rw [Hunk.header]
  split
  · rename_i hEmpty
    rw [hEmpty, parts_unbroken (front_unbroken hunk)]
    exact ⟨[], by rw [List.append_nil]; rfl⟩
  · obtain ⟨first, rest, hParts⟩ := List.exists_cons_of_ne_nil (parts_ne_nil hunk.heading)
    have hSpace : Unbroken [' '] := unbroken_of_all rfl
    rw [← List.singleton_append, parts_append (front_unbroken hunk), parts_append hSpace, hParts]
    exact ⟨' ' :: first, rfl⟩

theorem readLine_hunkHeader (st : Reading) (hunk : Hunk) (more : Text) :
    readLine st (hunk.front ++ more) = { st with inHunk := true } := rfl

theorem foldl_hunk {hunk : Hunk} (hHeading : ∀ part ∈ (parts hunk.heading).tail, ¬Derails part)
    (hBody : ∀ line ∈ hunk.body, ∀ part ∈ (parts line.text).tail, ¬Derails part) (st : Reading) :
    (hunk.lines.flatMap parts).foldl readLine st =
      { st with inHunk := true, lines := st.lines ++ keptOfHunk hunk } := by
  obtain ⟨more, hHeader⟩ := parts_hunkHeader hunk
  have hTame : ∀ part ∈ (parts hunk.heading).tail ++ (hunk.body.flatMap HunkLine.lines).flatMap parts, ¬Derails part := by
    intro part hMem
    obtain hMem | hMem := List.mem_append.mp hMem
    · exact hHeading part hMem
    · rw [List.flatMap_assoc] at hMem
      obtain ⟨line, hLine, hPart⟩ := List.mem_flatMap.mp hMem
      exact tame_hunkLine (hBody line hLine) part hPart
  have hKept : ((hunk.body.flatMap HunkLine.lines).flatMap parts).filterMap content = hunk.body.flatMap keptOf := by
    rw [List.flatMap_assoc, List.filterMap_flatMap]
    simp only [filterMap_hunkLine]
  rw [Hunk.lines, List.flatMap_cons, hHeader, List.cons_append, List.foldl_cons, readLine_hunkHeader]
  refine (foldl_content (by rfl) hTame).trans ?_
  rw [List.filterMap_append, hKept, keptOfHunk]

theorem foldl_hunks {hunks : List Hunk}
    (hTame : ∀ hunk ∈ hunks, (∀ part ∈ (parts hunk.heading).tail, ¬Derails part) ∧
      ∀ line ∈ hunk.body, ∀ part ∈ (parts line.text).tail, ¬Derails part) (st : Reading) :
    ((hunks.flatMap Hunk.lines).flatMap parts).foldl readLine st =
      { st with inHunk := st.inHunk || !hunks.isEmpty, lines := st.lines ++ hunks.flatMap keptOfHunk } := by
  induction hunks generalizing st with
  | nil => simp
  | cons hunk hunks ih =>
    obtain ⟨hHunk, hTame⟩ := List.forall_mem_cons.mp hTame
    rw [List.flatMap_cons, List.flatMap_append, List.foldl_append, foldl_hunk hHunk.1 hHunk.2, ih hTame]
    simp

theorem foldl_extended {st : Reading} (hOut : st.inHunk = false) (extended : List Extended) :
    ((extended.map Extended.line).flatMap parts).foldl readLine st = st := by
  induction extended with
  | nil => rfl
  | cons line extended ih =>
    rw [List.map_cons, List.flatMap_cons, parts_unbroken (extended_unbroken line), List.singleton_append, List.foldl_cons,
      readLine_extended hOut, ih]

theorem foldl_sides {st : Reading} (hOut : st.inHunk = false) (file : Section) (hSeeded : st.path = seededPath file.header) :
    (file.sides.flatMap parts).foldl readLine st = { st with path := pathOf file } := by
  have hOld : Unbroken ("--- ".toList ++ sideName file.created (file.old.label 'a')) :=
    .append (unbroken_of_all rfl) (sideName_unbroken _ (label_unbroken file.old rfl))
  have hNew : Unbroken ("+++ ".toList ++ sideName file.deleted (file.new.label 'b')) :=
    .append (unbroken_of_all rfl) (sideName_unbroken _ (label_unbroken file.new rfl))
  rw [Section.sides, pathOf]
  split
  · rw [← hSeeded]
    rfl
  · rw [List.flatMap_cons, List.flatMap_cons, parts_unbroken hOld, parts_unbroken hNew, List.flatMap_nil, List.append_nil,
      List.foldl_append, List.foldl_cons, List.foldl_nil, List.foldl_cons, List.foldl_nil, readLine_old hOut]
    refine (readLine_new (by exact hOut) _).trans ?_
    rw [← hSeeded]

theorem foldl_section {file : Section}
    (hTame : ∀ hunk ∈ file.hunks, (∀ part ∈ (parts hunk.heading).tail, ¬Derails part) ∧
      ∀ line ∈ hunk.body, ∀ part ∈ (parts line.text).tail, ¬Derails part) (st : Reading) :
    (file.lines.flatMap parts).foldl readLine st =
      { files := st.flush.files, path := pathOf file, lines := kept file, inHunk := !file.hunks.isEmpty } := by
  have hHeader : (file.header :: file.extended.map Extended.line).flatMap parts =
      file.header :: (file.extended.map Extended.line).flatMap parts := by
    rw [List.flatMap_cons, parts_unbroken (header_unbroken file), List.singleton_append]
  rw [Section.lines, List.flatMap_append, List.flatMap_append, hHeader, List.foldl_append, List.foldl_append,
    List.foldl_cons, readLine_header, foldl_extended (by rfl), foldl_sides (by rfl) file rfl, foldl_hunks hTame]
  rfl

/-- The file a section is read as; a section without a path is dropped. -/
def changedFile (file : Section) : List ChangedFile :=
  ((pathOf file).map fun path => (⟨path, kept file, false⟩ : ChangedFile)).toList

theorem foldl_diff {diff : Diff} (hTame : Tame diff) (st : Reading) :
    (((diff.flatMap Section.lines).flatMap parts).foldl readLine st).flush.files =
      st.flush.files ++ diff.flatMap changedFile := by
  induction diff generalizing st with
  | nil => simp
  | cons file diff ih =>
    obtain ⟨hFile, hTame⟩ := List.forall_mem_cons.mp hTame
    rw [List.flatMap_cons, List.flatMap_append, List.foldl_append, foldl_section hFile, ih hTame, List.flatMap_cons,
      ← List.append_assoc]
    rfl

theorem parseDiff_text {diff : Diff} (hTame : Tame diff) : parseDiff diff.text = diff.flatMap changedFile := by
  rw [parseDiff, Diff.text, splitlines_unlines, foldl_diff hTame]
  rfl

/-! ## Every file with hunks has a path -/

theorem head_strip {c : Char} (h : isSpace c = false) (rest : Text) : (strip (c :: rest)).head? = some c := by
  have hKept : (c :: rest).rdropWhile isSpace ≠ [] := by
    intro hNil
    have hSpace := List.rdropWhile_eq_nil_iff.mp hNil c List.mem_cons_self
    exact Bool.false_ne_true (h.symm.trans hSpace)
  obtain ⟨more, hPrefix⟩ := List.rdropWhile_prefix isSpace (c :: rest)
  rw [strip, List.dropWhile_cons_of_neg (by simp [h])]
  cases hText : (c :: rest).rdropWhile isSpace with
  | nil => exact absurd hText hKept
  | cons d text =>
    rw [hText] at hPrefix
    cases hPrefix
    rfl

theorem diffHeaderPath_isSome {c : Char} (hSpace : isSpace c = false) (hSlash : c ≠ '/') (rest : Text) :
    (diffHeaderPath (c :: rest)).isSome = true := by
  have hTab : c ≠ '\t' := by
    rintro rfl
    exact absurd hSpace (by decide)
  have hHead : (strip ((c :: rest).takeWhile (· ≠ '\t'))).head? = some c := by
    rw [List.takeWhile_cons_of_pos (by simpa using hTab), head_strip hSpace]
  have hField : strip ((c :: rest).takeWhile (· ≠ '\t')) ≠ devNullPath := by
    intro hNull
    rw [hNull] at hHead
    exact hSlash (Option.some.inj hHead).symm
  rw [diffHeaderPath, if_neg hField]
  split <;> rfl

theorem diffHeaderPath_sideName (path : Path) {side : Char} (hSpace : isSpace side = false) (hSlash : side ≠ '/') :
    (diffHeaderPath (sideName false (path.label side))).isSome = true := by
  have hLabel : ∃ c rest, isSpace c = false ∧ c ≠ '/' ∧ path.label side = c :: rest := by
    rw [Path.label]
    split
    · exact ⟨'"', _, by decide, by decide, rfl⟩
    · exact ⟨side, _, hSpace, hSlash, rfl⟩
  obtain ⟨c, rest, hSpace, hSlash, hLabel⟩ := hLabel
  rw [hLabel, sideName, if_neg Bool.false_ne_true]
  split
  · exact diffHeaderPath_isSome hSpace hSlash _
  · exact diffHeaderPath_isSome hSpace hSlash _

theorem pathOf_isSome {file : Section} (h : file.hunks ≠ []) : (pathOf file).isSome = true := by
  rw [pathOf]
  dsimp only
  rw [if_neg h, Option.isSome_or, Option.isSome_or]
  cases hDeleted : file.deleted with
  | false => rw [diffHeaderPath_sideName file.new (by decide) (by decide), Bool.true_or]
  | true =>
    have hCreated : file.created = false := by
      cases hCreated : file.created with
      | false => rfl
      | true => exact absurd ⟨hCreated, hDeleted⟩ file.present
    rw [hCreated, diffHeaderPath_sideName file.old (by decide) (by decide), Bool.or_true, Bool.or_true]

end Bajutsu.Analysis
