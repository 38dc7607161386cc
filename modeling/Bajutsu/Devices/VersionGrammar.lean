import Bajutsu.Devices.VersionMeaning

/-!
# Range texts and what they denote

The grammar of range texts without prereleases, the text each phrase is written as, and the versions
it denotes. `VersionSpec.parse` reads every such text to a range that contains exactly those versions.
-/

namespace Bajutsu.Devices

open PyText

/-! ## Phrases -/

inductive Part where
  | num (n : Nat)
  | x
  | X
  | star

def Part.text : Part → List Char
  | num n => decimal n
  | x => ['x']
  | X => ['X']
  | star => ['*']

inductive Parts where
  | one (major : Part)
  | two (major minor : Part)
  | three (major minor patch : Part)

def Parts.text : Parts → List Char
  | one major => major.text
  | two major minor => major.text ++ '.' :: minor.text
  | three major minor patch => major.text ++ '.' :: (minor.text ++ '.' :: patch.text)

def Parts.toList : Parts → List Part
  | one major => [major]
  | two major minor => [major, minor]
  | three major minor patch => [major, minor, patch]

/-- The numbers before the first wildcard; npm reads what follows one as wildcards too. -/
def numbers : List Part → List Nat
  | .num n :: parts => n :: numbers parts
  | _ => []

/-- A version as a range writes it: an optional `v`, one to three parts, optional build metadata. -/
structure Written where
  v : Bool
  parts : Parts
  build : List Char
  build_isTag : ∀ c ∈ build, isTag c = true

def Written.text (w : Written) : List Char :=
  (if w.v then ['v'] else []) ++ w.parts.text ++ if w.build = [] then [] else '+' :: w.build

def Written.components (w : Written) : List Nat := numbers w.parts.toList

structure Spaces where
  chars : List Char
  isSpace : ∀ c ∈ chars, isSpace c = true

structure Gap extends Spaces where
  ne_nil : chars ≠ []

inductive OperatorText where
  | tildeGreater
  | tilde
  | caret
  | lessEqual
  | greaterEqual
  | less
  | greater
  | equal

def OperatorText.text : OperatorText → List Char
  | tildeGreater => ['~', '>']
  | tilde => ['~']
  | caret => ['^']
  | lessEqual => ['<', '=']
  | greaterEqual => ['>', '=']
  | less => ['<']
  | greater => ['>']
  | equal => ['=']

def OperatorText.operator : OperatorText → Operator
  | tildeGreater => .tilde
  | tilde => .tilde
  | caret => .caret
  | lessEqual => .le
  | greaterEqual => .ge
  | less => .lt
  | greater => .gt
  | equal => .exact

/-- A version, alone or after an operator and optional spaces. -/
structure Comparator where
  operator : Option (OperatorText × Spaces)
  version : Written

def Comparator.text (c : Comparator) : List Char :=
  match c.operator with
  | none => c.version.text
  | some (op, spaces) => op.text ++ spaces.chars ++ c.version.text

def Comparator.op (c : Comparator) : Operator :=
  match c.operator with
  | none => .exact
  | some (op, _) => op.operator

def Comparator.Denotes (c : Comparator) : Version → Prop := c.op.Denotes c.version.components

inductive Phrase where
  | empty
  | hyphen (lo : Written) (before after : Gap) (hi : Written)
  | comparators (first : Comparator) (rest : List (Gap × Comparator))

def restText : List (Gap × Comparator) → List Char
  | [] => []
  | (gap, c) :: rest => gap.chars ++ (c.text ++ restText rest)

def Phrase.text : Phrase → List Char
  | empty => []
  | hyphen lo before after hi => lo.text ++ (before.chars ++ '-' :: (after.chars ++ hi.text))
  | comparators first rest => first.text ++ restText rest

def Phrase.Denotes : Phrase → Version → Prop
  | empty, _ => True
  | hyphen lo _ _ hi, v => HyphenDenotes lo.components hi.components v
  | comparators first rest, v => ∀ c ∈ first :: rest.map Prod.snd, c.Denotes v

/-- One side of a union, with the spaces around it. -/
structure Side where
  lead : Spaces
  phrase : Phrase
  trail : Spaces

def Side.text (s : Side) : List Char := s.lead.chars ++ s.phrase.text ++ s.trail.chars

/-- A range text: sides joined by `||`. -/
structure RangeText where
  first : Side
  rest : List Side

def RangeText.sides (r : RangeText) : List Side := r.first :: r.rest

def sidesText : Side → List Side → List Char
  | first, [] => first.text
  | first, next :: rest => first.text ++ '|' :: '|' :: sidesText next rest

def RangeText.text (r : RangeText) : String := String.ofList (sidesText r.first r.rest)

def RangeText.Denotes (r : RangeText) (v : Version) : Prop := ∃ s ∈ r.sides, s.phrase.Denotes v

/-! ## The numbers a text writes -/

def Phrase.versions : Phrase → List Written
  | empty => []
  | hyphen lo _ _ hi => [lo, hi]
  | comparators first rest => (first :: rest.map Prod.snd).map Comparator.version

/-- Every number is short enough for `int`. -/
def Written.Readable (w : Written) : Prop := ∀ n ∈ w.components, n < 10 ^ maxStrDigits

def RangeText.Readable (r : RangeText) : Prop :=
  ∀ s ∈ r.sides, ∀ w ∈ s.phrase.versions, w.Readable

/-! ## The characters of a version

None of them is a space, an operator or a bar, so a version is one token and stays on its side. -/

structure Plain (c : Char) : Prop where
  not_space : isSpace c = false
  not_operator : c ∉ ['~', '>', '^', '<', '=']
  not_bar : c ≠ '|'

theorem plain_of_isTag {c : Char} (h : isTag c = true) : Plain c := by
  have hLow : c.toNat < 128 := by
    have hLe (d : Char) (hc : c ≤ d) : c.toNat ≤ d.toNat := hc
    simp only [isTag, decide_eq_true_eq] at h
    rcases h with ⟨-, h⟩ | ⟨-, h⟩ | ⟨-, h⟩ | rfl | rfl
    · exact (hLe _ h).trans_lt (by decide)
    · exact (hLe _ h).trans_lt (by decide)
    · exact (hLe _ h).trans_lt (by decide)
    · decide
    · decide
  have hAll : ∀ n < 128, isTag (Char.ofNat n) = true → isSpace (Char.ofNat n) = false ∧
      Char.ofNat n ∉ ['~', '>', '^', '<', '='] ∧ Char.ofNat n ≠ '|' := by decide
  obtain ⟨hSpace, hOperator, hBar⟩ := hAll c.toNat hLow (by rwa [Char.ofNat_toNat])
  rw [Char.ofNat_toNat] at hSpace hOperator hBar
  exact ⟨hSpace, hOperator, hBar⟩

theorem plain_part {p : Part} {c : Char} (h : c ∈ p.text) : Plain c := by
  cases p with
  | num n =>
    obtain ⟨d, hd, rfl⟩ := mem_decimal h
    have hTag : ∀ d < 10, isTag (Nat.digitChar d) = true := by decide
    exact plain_of_isTag (hTag d hd)
  | x => exact plain_of_isTag (by rw [List.mem_singleton.mp h]; decide)
  | X => exact plain_of_isTag (by rw [List.mem_singleton.mp h]; decide)
  | star =>
    rw [List.mem_singleton.mp h]
    exact ⟨by decide, by decide, by decide⟩

theorem plain_dot : Plain '.' := plain_of_isTag (by decide)

theorem plain_parts {ps : Parts} {c : Char} (h : c ∈ ps.text) : Plain c := by
  cases ps with
  | one a => exact plain_part h
  | two a b =>
    simp only [Parts.text, List.mem_append, List.mem_cons] at h
    rcases h with h | rfl | h
    · exact plain_part h
    · exact plain_dot
    · exact plain_part h
  | three a b c =>
    simp only [Parts.text, List.mem_append, List.mem_cons] at h
    rcases h with h | rfl | h | rfl | h
    · exact plain_part h
    · exact plain_dot
    · exact plain_part h
    · exact plain_dot
    · exact plain_part h

theorem plain_written {w : Written} {c : Char} (h : c ∈ w.text) : Plain c := by
  simp only [Written.text, List.mem_append] at h
  rcases h with (h | h) | h
  · split at h
    · exact plain_of_isTag (by rw [List.mem_singleton.mp h]; decide)
    · cases h
  · exact plain_parts h
  · split at h
    · cases h
    · rcases List.mem_cons.mp h with rfl | h
      · exact ⟨by decide, by decide, by decide⟩
      · exact plain_of_isTag (w.build_isTag c h)

theorem part_text_ne_nil (p : Part) : p.text ≠ [] := by
  cases p with
  | num n => exact decimal_ne_nil n
  | x => exact List.cons_ne_nil _ _
  | X => exact List.cons_ne_nil _ _
  | star => exact List.cons_ne_nil _ _

theorem parts_text_ne_nil (ps : Parts) : ps.text ≠ [] := by
  cases ps <;> simp [Parts.text, part_text_ne_nil]

theorem written_text_ne_nil (w : Written) : w.text ≠ [] := by
  simp [Written.text, parts_text_ne_nil]

/-! ## Reading a version -/

theorem digitChar_range : ∀ d, 1 ≤ d → d < 10 →
    Nat.digitChar d ≠ '0' ∧ '1' ≤ Nat.digitChar d ∧ Nat.digitChar d ≤ '9' := by
  intro d h1 h10
  interval_cases d <;> decide

theorem readPart_append {p : Part} {rest : List Char} (hRest : ∀ c ∈ rest.head?, isDigit c = false) :
    readPart (p.text ++ rest) = some (p.text, rest) := by
  cases p with
  | num n =>
    rcases decimal_cases n with ⟨_, hZero⟩ | ⟨_, d, h1, h10, ds, hDecimal⟩
    · rw [Part.text, hZero]
      rfl
    · obtain ⟨hNe, hLow, hHigh⟩ := digitChar_range d h1 h10
      have hDigits : ∀ c ∈ ds, isDigit c = true := fun c hc =>
        isDigit_of_mem_decimal (n := n) (hDecimal ▸ List.mem_cons_of_mem _ hc)
      obtain ⟨hTake, hDrop⟩ := takeWhile_dropWhile_append hDigits hRest
      rw [Part.text, hDecimal, List.cons_append, readPart, if_pos ⟨hLow, hHigh⟩, hTake, hDrop]
      exact hNe
  | x => rfl
  | X => rfl
  | star => rfl

theorem part_head_ne_v (p : Part) (rest : List Char) : dropV (p.text ++ rest) = p.text ++ rest := by
  have hDigit : ∀ d < 10, Nat.digitChar d ≠ 'v' := by decide
  cases p with
  | num n =>
    rw [Part.text]
    cases hText : decimal n with
    | nil => exact absurd hText (decimal_ne_nil n)
    | cons c cs =>
      obtain ⟨d, hd, rfl⟩ := mem_decimal (n := n) (hText ▸ List.mem_cons_self)
      rw [List.cons_append, dropV]
      intro cs' h
      exact hDigit d hd (List.cons.inj h).1
  | x => rfl
  | X => rfl
  | star => rfl

theorem readDotPart_dot {p : Part} {rest : List Char} (hRest : ∀ c ∈ rest.head?, isDigit c = false) :
    readDotPart ('.' :: (p.text ++ rest)) = (some p.text, rest) := by
  rw [readDotPart, readPart_append hRest]

/-- What may follow a version: nothing, a space or the mark of its build metadata. -/
def Follows (rest : List Char) : Prop := ∀ c ∈ rest.head?, isSpace c = true ∨ c = '+'

theorem Follows.head {rest : List Char} (h : Follows rest) {c : Char} (hc : c ∈ rest.head?) :
    isDigit c = false ∧ c ≠ '.' ∧ c ≠ '-' := by
  rcases h c hc with hSpace | rfl
  · refine ⟨not_isDigit_of_isSpace hSpace, ?_, ?_⟩
    · rintro rfl
      exact absurd hSpace (by decide)
    · rintro rfl
      exact absurd hSpace (by decide)
  · exact ⟨by decide, by decide, by decide⟩

theorem readDotPart_follows {rest : List Char} (h : Follows rest) :
    readDotPart rest = (none, rest) := by
  cases rest with
  | nil => rfl
  | cons c rest =>
    rw [readDotPart]
    intro cs hcs
    exact (h.head rfl).2.1 (List.cons.inj hcs).1

theorem readTag_follows {rest : List Char} (h : Follows rest) : readTag '-' rest = (none, rest) := by
  cases rest with
  | nil => rfl
  | cons c rest =>
    rw [readTag, if_neg]
    exact fun hAnd => (h.head rfl).2.2 hAnd.1

def Parts.groups : Parts → XVersion
  | one a => ⟨a.text, none, none, none⟩
  | two a b => ⟨a.text, some b.text, none, none⟩
  | three a b c => ⟨a.text, some b.text, some c.text, none⟩

theorem readXVersion_parts {ps : Parts} {cs rest : List Char} (hText : dropV cs = ps.text ++ rest)
    (h : Follows rest) : readXVersion cs = some (ps.groups, (readTag '+' rest).2) := by
  have hDigit : ∀ c ∈ rest.head?, isDigit c = false := fun c hc => (h.head hc).1
  have hDot (more : List Char) : ∀ c ∈ ('.' :: more).head?, isDigit c = false := by
    intro c hc
    cases hc
    decide
  rw [readXVersion, hText]
  cases ps with
  | one a =>
    simp only [Parts.text, readPart_append hDigit, readDotPart_follows h, readTag_follows h,
      Parts.groups]
  | two a b =>
    simp only [Parts.text, List.append_assoc, List.cons_append, readPart_append (hDot _),
      readDotPart_dot hDigit, readDotPart_follows h, readTag_follows h, Parts.groups]
  | three a b c =>
    simp only [Parts.text, List.append_assoc, List.cons_append, readPart_append (hDot _),
      readDotPart_dot (hDot _), readDotPart_dot hDigit, readTag_follows h, Parts.groups]

theorem isTag_of_isSpace {c : Char} (h : isSpace c = true) : isTag c = false := by
  cases hTag : isTag c with
  | false => rfl
  | true => rw [(plain_of_isTag hTag).not_space] at h; cases h

/-- Nothing or a space follows a token. -/
def Ends (rest : List Char) : Prop := ∀ c ∈ rest.head?, isSpace c = true

theorem readTag_build {w : Written} {rest : List Char} (hRest : Ends rest) :
    (readTag '+' ((if w.build = [] then [] else '+' :: w.build) ++ rest)).2 = rest := by
  split
  · cases rest with
    | nil => rfl
    | cons c rest =>
      have hPlus : ¬(c = '+' ∧ rest.takeWhile isTag ≠ []) := by
        rintro ⟨rfl, -⟩
        exact absurd (hRest '+' rfl) (by decide)
      rw [List.nil_append, readTag, if_neg hPlus]
  · rename_i hBuild
    obtain ⟨hTake, hDrop⟩ := takeWhile_dropWhile_append w.build_isTag
      fun c (hc : c ∈ rest.head?) => isTag_of_isSpace (hRest c hc)
    rw [List.cons_append, readTag, hTake, hDrop, if_pos ⟨rfl, hBuild⟩]

theorem readXVersion_written (w : Written) {rest : List Char} (hRest : Ends rest) :
    readXVersion (w.text ++ rest) = some (w.parts.groups, rest) := by
  have hFollows : Follows ((if w.build = [] then [] else '+' :: w.build) ++ rest) := by
    intro c hc
    split at hc
    · exact .inl (hRest c hc)
    · cases hc
      exact .inr rfl
  have hDropV : dropV (w.text ++ rest) =
      w.parts.text ++ ((if w.build = [] then [] else '+' :: w.build) ++ rest) := by
    have hParts (more : List Char) : dropV (w.parts.text ++ more) = w.parts.text ++ more := by
      cases w.parts with
      | one a => exact part_head_ne_v a more
      | two a b =>
        rw [Parts.text, List.append_assoc]
        exact part_head_ne_v a _
      | three a b c =>
        rw [Parts.text, List.append_assoc]
        exact part_head_ne_v a _
    rw [Written.text, List.append_assoc, List.append_assoc]
    cases w.v with
    | false => exact hParts _
    | true => rfl
  rw [readXVersion_parts hDropV hFollows, readTag_build hRest]

/-! ## The components read -/

def groupOf (p : Option Part) : Option (List Char) := p.map Part.text

theorem isWild_part (p : Part) : isWild p.text = true ↔ ∀ n, p ≠ .num n := by
  cases p with
  | num n =>
    have hHead : ∀ d < 10, Nat.digitChar d ≠ 'x' ∧ Nat.digitChar d ≠ 'X' ∧ Nat.digitChar d ≠ '*' := by
      decide
    have hNot : ¬isWild (decimal n) = true := by
      intro hWild
      cases hText : decimal n with
      | nil => exact decimal_ne_nil n hText
      | cons c cs =>
        obtain ⟨d, hd, rfl⟩ := mem_decimal (n := n) (hText ▸ List.mem_cons_self)
        simp [isWild, hText, hHead d hd] at hWild
    simp [Part.text, hNot]
  | x => simp [Part.text, isWild]
  | X => simp [Part.text, isWild]
  | star => simp [Part.text, isWild]

theorem readPartials_wild (groups : List (Option (List Char))) :
    readPartials true groups = .ok (groups.map fun _ => none) := by
  induction groups with
  | nil => rfl
  | cons group groups ih => cases group <;> simp [readPartials, ih, Except.map]

theorem readPartials_parts (parts : List Part) (absent : Nat)
    (hReadable : ∀ n ∈ numbers parts, n < 10 ^ maxStrDigits) :
    readPartials false (parts.map (fun p => some p.text) ++ List.replicate absent none) =
      .ok ((numbers parts).map some ++
        List.replicate (parts.length - (numbers parts).length + absent) none) := by
  induction parts with
  | nil =>
    cases absent with
    | zero => rfl
    | succ absent => 
      simp [readPartials, numbers, readPartials_wild, Except.map, List.replicate_succ]
  | cons p parts ih =>
    by_cases hNum : ∃ n, p = .num n
    · obtain ⟨n, rfl⟩ := hNum
      have hWild : isWild (Part.num n).text = false := by
        rw [Bool.eq_false_iff, ne_eq, isWild_part]
        simp
      have hInt : int (Part.num n).text = .ok n := by
        rw [int, Part.text, intOf_decimal, if_pos (hReadable n List.mem_cons_self)]
      have hRest := ih fun m hm => hReadable m (List.mem_cons_of_mem _ hm)
      simp [readPartials, hWild, hInt, hRest, numbers, bind, Except.bind, pure, Except.pure]
    · have hWild : isWild p.text = true := (isWild_part p).mpr fun n hn => hNum ⟨n, hn⟩
      have hNumbers : numbers (p :: parts) = [] := by
        cases p with
        | num n => exact absurd ⟨n, rfl⟩ hNum
        | _ => rfl
      simp only [List.map_cons, List.cons_append, readPartials, hWild, Bool.or_true, if_true,
        readPartials_wild, Except.map, hNumbers, List.map_nil, List.nil_append]
      congr 1
      refine List.eq_replicate_iff.mpr ⟨?_, ?_⟩
      · simp only [List.length_cons, List.length_map, List.length_append, List.length_replicate,
          List.length_nil]
        omega
      · intro b hb
        rcases List.mem_cons.mp hb with rfl | hb
        · rfl
        · obtain ⟨_, _, rfl⟩ := List.mem_map.mp hb
          rfl

theorem join_getElem_map_some (ns : List Nat) (absent i : Nat) :
    ((ns.map some ++ List.replicate absent none)[i]?).join = ns[i]? := by
  by_cases hi : i < ns.length
  · rw [List.getElem?_append_left (by simpa using hi), List.getElem?_map]
    simp [hi]
  · rw [List.getElem?_append_right (by simpa using hi), List.getElem?_replicate,
      List.getElem?_eq_none (l := ns) (by omega)]
    split <;> rfl

theorem partialOf_written {w : Written} (hReadable : w.Readable) (text : String) :
    partialOf w.parts.groups text = .ok (.ofWritten w.components) := by
  obtain ⟨absent, hGroups, hPre⟩ : ∃ absent,
      [some w.parts.groups.major, w.parts.groups.minor, w.parts.groups.patch] =
        w.parts.toList.map (fun p => some p.text) ++ List.replicate absent none ∧
      w.parts.groups.pre = none := by
    cases w.parts with
    | one a => exact ⟨2, rfl, rfl⟩
    | two a b => exact ⟨1, rfl, rfl⟩
    | three a b c => exact ⟨0, rfl, rfl⟩
  rw [partialOf, hPre, hGroups, readPartials_parts _ _ hReadable]
  simp only [bind, Except.bind, pure, Except.pure, join_getElem_map_some, Partial.ofWritten,
    Written.components]

theorem components_length (w : Written) : w.components.length ≤ 3 := by
  have hNumbers : ∀ parts : List Part, (numbers parts).length ≤ parts.length := by
    intro parts
    induction parts with
    | nil => simp [numbers]
    | cons p parts ih => cases p <;> simp [numbers, ih]
  have hParts : w.parts.toList.length ≤ 3 := by cases w.parts <;> simp [Parts.toList]
  exact (hNumbers _).trans hParts

/-! ## Reading a comparator -/

/-- A comparator without the spaces after its operator, as it stands in the token list. -/
def Comparator.token (c : Comparator) : List Char :=
  match c.operator with
  | none => c.version.text
  | some (op, _) => op.text ++ c.version.text

theorem readOperator_text (op : OperatorText) {c : Char} (hc : Plain c) (cs : List Char) :
    readOperator (op.text ++ c :: cs) = (op.operator, c :: cs) := by
  have hGreater : c ≠ '>' := fun h => hc.not_operator (by simp [h])
  have hEqual : c ≠ '=' := fun h => hc.not_operator (by simp [h])
  cases op <;> simp [OperatorText.text, readOperator, OperatorText.operator, hGreater, hEqual]

theorem readOperator_none {c : Char} (hc : Plain c) (cs : List Char) :
    readOperator (c :: cs) = (.exact, c :: cs) := by
  have hNot := hc.not_operator
  simp only [List.mem_cons, List.not_mem_nil, or_false, not_or] at hNot
  simp [readOperator, hNot]

theorem part_text_cons (p : Part) : ∃ c cs, p.text = c :: cs ∧ c ≠ '-' := by
  cases p with
  | num n =>
    obtain ⟨c, cs, hText⟩ := List.exists_cons_of_ne_nil (decimal_ne_nil n)
    obtain ⟨d, hd, rfl⟩ := mem_decimal (n := n) (hText ▸ List.mem_cons_self)
    have hNe : ∀ d < 10, Nat.digitChar d ≠ '-' := by decide
    exact ⟨_, cs, hText, hNe d hd⟩
  | x => exact ⟨_, _, rfl, by decide⟩
  | X => exact ⟨_, _, rfl, by decide⟩
  | star => exact ⟨_, _, rfl, by decide⟩

theorem written_text_cons (w : Written) : ∃ c cs, w.text = c :: cs ∧ Plain c ∧ c ≠ '-' := by
  have hParts : ∃ c cs, w.parts.text = c :: cs ∧ c ≠ '-' := by
    cases w.parts with
    | one a => exact part_text_cons a
    | two a b =>
      obtain ⟨c, cs, hText, hc⟩ := part_text_cons a
      exact ⟨c, _, by rw [Parts.text, hText, List.cons_append], hc⟩
    | three a b d =>
      obtain ⟨c, cs, hText, hc⟩ := part_text_cons a
      exact ⟨c, _, by rw [Parts.text, hText, List.cons_append], hc⟩
  obtain ⟨c, cs, hText, hc⟩ := hParts
  have hPlain (d : Char) (ds : List Char) (h : w.text = d :: ds) : Plain d :=
    plain_written (w := w) (h ▸ List.mem_cons_self)
  cases hv : w.v with
  | false =>
    have hOwn : w.text = c :: (cs ++ if w.build = [] then [] else '+' :: w.build) := by
      simp [Written.text, hv, hText]
    exact ⟨c, _, hOwn, hPlain c _ hOwn, hc⟩
  | true =>
    have hOwn : w.text = 'v' :: (w.parts.text ++ if w.build = [] then [] else '+' :: w.build) := by
      simp [Written.text, hv]
    exact ⟨'v', _, hOwn, hPlain 'v' _ hOwn, by decide⟩

theorem readComparator_token (c : Comparator) :
    readComparator c.token = some (c.op, c.version.parts.groups) := by
  obtain ⟨d, ds, hText, hd, -⟩ := written_text_cons c.version
  have hRead := readXVersion_written c.version (show Ends [] by simp [Ends])
  rw [List.append_nil, hText] at hRead
  rw [readComparator, Comparator.token, Comparator.op, hText]
  cases c.operator with
  | none => simp only [readOperator_none hd, hRead]
  | some item => simp only [readOperator_text item.1 hd, hRead]

theorem readTokens_tokens (cs : List Comparator) (hReadable : ∀ c ∈ cs, c.version.Readable)
    (text : String) :
    ∃ expanded, readTokens text (cs.map Comparator.token) = .ok expanded ∧
      Expands expanded fun v => ∀ c ∈ cs, c.Denotes v := by
  induction cs with
  | nil => exact ⟨some [], rfl, by simp [Expands]⟩
  | cons c cs ih =>
    obtain ⟨hc, hReadable⟩ := List.forall_mem_cons.mp hReadable
    obtain ⟨rest, hRest, hMeaning⟩ := ih hReadable
    have hOwn := expands_desugar (components_length c.version) c.op
    simp only [List.map_cons, readTokens, readComparator_token, partialOf_written hc, hRest, bind,
      Except.bind, pure, Except.pure]
    cases hExpanded : desugar c.op (.ofWritten c.version.components) with
    | none =>
      refine ⟨none, rfl, fun v => ?_⟩
      have hNot := hOwn v
      simp only [hExpanded] at hNot
      simpa [Comparator.Denotes] using fun h => absurd h (by simpa using hNot)
    | some expanded =>
      refine ⟨_, rfl, fun v => ?_⟩
      have hLeft := hOwn v
      have hRight : _ ↔ ∀ d ∈ cs, d.Denotes v := hMeaning v
      rw [hExpanded] at hLeft
      change _ ↔ ∀ d ∈ c :: cs, d.Denotes v
      rw [List.forall_mem_cons, ← hRight, Comparator.Denotes, ← hLeft]
      cases rest with
      | none => simp
      | some comparators => simp [or_imp, forall_and]

/-! ## Reading a side -/

theorem plain_operator (op : OperatorText) {d : Char} (h : d ∈ op.text) :
    isSpace d = false ∧ d ≠ '|' := by
  have hAll : op.text.all (fun d => !isSpace d && d ≠ '|') = true := by cases op <;> decide
  simpa using List.all_eq_true.mp hAll d h

theorem plain_token {c : Comparator} {d : Char} (h : d ∈ c.token) : isSpace d = false ∧ d ≠ '|' := by
  rw [Comparator.token] at h
  cases hOp : c.operator with
  | none =>
    rw [hOp] at h
    exact ⟨(plain_written h).not_space, (plain_written h).not_bar⟩
  | some item =>
    rw [hOp] at h
    rcases List.mem_append.mp h with h | h
    · exact plain_operator item.1 h
    · exact ⟨(plain_written h).not_space, (plain_written h).not_bar⟩

theorem joinOperators_written {w : Written} (afterOperator : Bool) (rest : List Char) :
    joinOperators afterOperator (w.text ++ rest) = w.text ++ joinOperators false rest := by
  have hPlain : ∀ cs : List Char, (∀ c ∈ cs, Plain c) → cs ≠ [] → ∀ after,
      joinOperators after (cs ++ rest) = cs ++ joinOperators false rest := by
    intro cs
    induction cs with
    | nil => intro _ hNe; exact absurd rfl hNe
    | cons c cs ih =>
      intro hAll _ after
      obtain ⟨hc, hAll⟩ := List.forall_mem_cons.mp hAll
      rw [List.cons_append, joinOperators, hc.not_space, Bool.and_false, if_neg Bool.false_ne_true,
        decide_eq_false hc.not_operator]
      cases cs with
      | nil => rfl
      | cons d ds =>
        rw [ih hAll (List.cons_ne_nil _ _)]
        rfl
  exact hPlain w.text (fun c hc => plain_written hc) (written_text_ne_nil w) afterOperator

theorem joinOperators_spaces {spaces : List Char} (h : ∀ c ∈ spaces, isSpace c = true)
    (rest : List Char) : joinOperators true (spaces ++ rest) = joinOperators true rest := by
  induction spaces with
  | nil => rfl
  | cons s spaces ih =>
    obtain ⟨hs, h⟩ := List.forall_mem_cons.mp h
    rw [List.cons_append, joinOperators, hs, Bool.and_true, if_pos rfl, ih h]

theorem joinOperators_gap {spaces : List Char} (h : ∀ c ∈ spaces, isSpace c = true)
    (rest : List Char) : joinOperators false (spaces ++ rest) = spaces ++ joinOperators false rest := by
  induction spaces with
  | nil => rfl
  | cons s spaces ih =>
    obtain ⟨hs, h⟩ := List.forall_mem_cons.mp h
    have hOperator : s ∉ ['~', '>', '^', '<', '='] := by
      intro hMem
      have hNone : (['~', '>', '^', '<', '='].all fun c => !isSpace c) = true := by decide
      have hNot := List.all_eq_true.mp hNone s hMem
      rw [hs] at hNot
      cases hNot
    rw [List.cons_append, joinOperators, Bool.false_and, if_neg Bool.false_ne_true,
      decide_eq_false hOperator, ih h, List.cons_append]

theorem joinOperators_comparator (c : Comparator) (rest : List Char) :
    joinOperators false (c.text ++ rest) = c.token ++ joinOperators false rest := by
  rw [Comparator.text, Comparator.token]
  cases c.operator with
  | none => exact joinOperators_written false rest
  | some item =>
    obtain ⟨op, spaces⟩ := item
    have hOperator (more : List Char) :
        joinOperators false (op.text ++ more) = op.text ++ joinOperators true more := by
      cases op <;> rfl
    simp only [List.append_assoc, hOperator, joinOperators_spaces spaces.isSpace,
      joinOperators_written]

theorem words_gap {w : List Char} (hNe : w ≠ []) (hWord : ∀ c ∈ w, isSpace c = false) (gap : Gap)
    (rest : List Char) : words (w ++ (gap.chars ++ rest)) = w :: words rest := by
  obtain ⟨s, spaces, hGap⟩ := List.exists_cons_of_ne_nil gap.ne_nil
  have hSpaces := gap.isSpace
  rw [hGap] at hSpaces
  obtain ⟨hs, hSpaces⟩ := List.forall_mem_cons.mp hSpaces
  rw [hGap, List.cons_append, words_word_space hNe hWord hs, words_spaces hSpaces]

theorem token_ne_nil (c : Comparator) : c.token ≠ [] := by
  rw [Comparator.token]
  cases c.operator with
  | none => exact written_text_ne_nil c.version
  | some item => simp [written_text_ne_nil]

theorem words_comparators (c : Comparator) (rest : List (Gap × Comparator)) :
    words (joinOperators false (c.text ++ restText rest)) =
      c.token :: rest.map fun item => item.2.token := by
  have hToken (c : Comparator) : ∀ d ∈ c.token, isSpace d = false := fun d hd => (plain_token hd).1
  rw [joinOperators_comparator]
  induction rest generalizing c with
  | nil =>
    rw [restText, joinOperators, List.append_nil, words_word (token_ne_nil c) (hToken c)]
    rfl
  | cons item rest ih =>
    rw [restText, joinOperators_gap item.1.isSpace, joinOperators_comparator,
      words_gap (token_ne_nil c) (hToken c), ih]
    rfl

theorem comparator_text_cons (c : Comparator) :
    ∃ d ds, c.text = d :: ds ∧ isSpace d = false ∧ d ≠ '-' := by
  rw [Comparator.text]
  cases c.operator with
  | none =>
    obtain ⟨d, ds, hText, hd, hNe⟩ := written_text_cons c.version
    exact ⟨d, ds, hText, hd.not_space, hNe⟩
  | some item =>
    obtain ⟨op, spaces⟩ := item
    cases op <;> exact ⟨_, _, rfl, by decide, by decide⟩

theorem getLast_written (front : List Char) (w : Written) :
    ∀ c ∈ (front ++ w.text).getLast?, isSpace c = false := by
  intro c hc
  rw [List.getLast?_append_of_ne_nil _ (written_text_ne_nil w)] at hc
  exact (plain_written (List.mem_of_getLast? hc)).not_space

theorem getLast_comparators (front : List Char) (c : Comparator) (rest : List (Gap × Comparator)) :
    ∀ d ∈ (front ++ (c.text ++ restText rest)).getLast?, isSpace d = false := by
  induction rest generalizing front c with
  | nil =>
    rw [restText, List.append_nil, Comparator.text]
    cases c.operator with
    | none => exact getLast_written front c.version
    | some item =>
      rw [← List.append_assoc]
      exact getLast_written _ c.version
  | cons item rest ih =>
    have hText : front ++ (c.text ++ restText (item :: rest)) =
        (front ++ c.text ++ item.1.chars) ++ (item.2.text ++ restText rest) := by
      simp [restText]
    rw [hText]
    exact ih _ item.2

theorem strip_side (s : Side) : strip s.text = s.phrase.text := by
  refine strip_surrounded s.lead.isSpace s.trail.isSpace ?_ ?_
  · intro c hc
    cases hPhrase : s.phrase with
    | empty => simp [hPhrase, Phrase.text] at hc
    | hyphen lo before after hi =>
      obtain ⟨d, ds, hText, hd, -⟩ := written_text_cons lo
      simp only [hPhrase, Phrase.text, hText, List.cons_append, List.head?_cons,
        Option.mem_def, Option.some.injEq] at hc
      exact hc ▸ hd.not_space
    | comparators first rest =>
      obtain ⟨d, ds, hText, hd, -⟩ := comparator_text_cons first
      simp only [hPhrase, Phrase.text, hText, List.cons_append, List.head?_cons,
        Option.mem_def, Option.some.injEq] at hc
      exact hc ▸ hd
  · intro c hc
    cases hPhrase : s.phrase with
    | empty => simp [hPhrase, Phrase.text] at hc
    | hyphen lo before after hi =>
      have hText : (Phrase.hyphen lo before after hi).text =
          (lo.text ++ before.chars ++ '-' :: after.chars) ++ hi.text := by simp [Phrase.text]
      rw [hPhrase, hText] at hc
      exact getLast_written _ hi c hc
    | comparators first rest =>
      rw [hPhrase, Phrase.text] at hc
      exact getLast_comparators [] first rest c hc

theorem readSpaces_gap (gap : Gap) (rest : List Char) (hRest : ∀ c ∈ rest.head?, isSpace c = false) :
    readSpaces (gap.chars ++ rest) = some rest := by
  obtain ⟨s, spaces, hGap⟩ := List.exists_cons_of_ne_nil gap.ne_nil
  have hSpaces := gap.isSpace
  rw [hGap] at hSpaces
  obtain ⟨hs, hSpaces⟩ := List.forall_mem_cons.mp hSpaces
  rw [hGap, List.cons_append, readSpaces, if_pos hs, (takeWhile_dropWhile_append hSpaces hRest).2]

theorem ends_gap (gap : Gap) (rest : List Char) : Ends (gap.chars ++ rest) := by
  obtain ⟨s, spaces, hGap⟩ := List.exists_cons_of_ne_nil gap.ne_nil
  intro c hc
  rw [hGap] at hc
  cases hc
  exact gap.isSpace _ (hGap ▸ List.mem_cons_self)

theorem readHyphen_hyphen (lo : Written) (before after : Gap) (hi : Written) :
    readHyphen (Phrase.hyphen lo before after hi).text = some (lo.parts.groups, hi.parts.groups) := by
  have hLo := readXVersion_written lo
    (ends_gap before ('-' :: (after.chars ++ hi.text)))
  have hBefore := readSpaces_gap before ('-' :: (after.chars ++ hi.text)) (by
    intro c hc
    cases hc
    decide)
  obtain ⟨d, ds, hText, hd, -⟩ := written_text_cons hi
  have hAfter := readSpaces_gap after hi.text (by
    intro c hc
    rw [hText] at hc
    cases hc
    exact hd.not_space)
  have hHi := readXVersion_written hi (show Ends [] by simp [Ends])
  rw [List.append_nil] at hHi
  simp [readHyphen, Phrase.text, hLo, hBefore, hAfter, hHi]

theorem readHyphen_comparators (first : Comparator) (rest : List (Gap × Comparator)) :
    readHyphen (Phrase.comparators first rest).text = none := by
  rw [Phrase.text, Comparator.text]
  cases first.operator with
  | some item =>
    obtain ⟨op, spaces⟩ := item
    have hNone (more : List Char) : readXVersion (op.text ++ more) = none := by cases op <;> rfl
    simp [readHyphen, List.append_assoc, hNone]
  | none =>
    have hEnds : Ends (restText rest) := by
      cases rest with
      | nil => simp [Ends, restText]
      | cons item rest => exact ends_gap item.1 _
    rw [readHyphen, readXVersion_written _ hEnds]
    cases rest with
    | nil => rfl
    | cons item rest =>
      obtain ⟨d, ds, hText, hd, hNe⟩ := comparator_text_cons item.2
      have hSpaces := readSpaces_gap item.1 (item.2.text ++ restText rest) (by
        intro c hc
        rw [hText] at hc
        cases hc
        exact hd)
      simp only [Option.bind_eq_bind, Option.bind_some, restText, hSpaces]
      rw [hText, List.cons_append]
      split
      · rename_i hMinus
        exact absurd (List.cons.inj hMinus).1 hNe
      · rfl

theorem readHyphen_empty : readHyphen (Phrase.text .empty) = none := rfl

theorem parseSet_side {s : Side} (hReadable : ∀ w ∈ s.phrase.versions, w.Readable) (text : String) :
    ∃ range, parseSet s.text text = .ok range ∧
      ∀ v, range.contains v = true ↔ s.phrase.Denotes v := by
  rw [parseSet, strip_side]
  cases hPhrase : s.phrase with
  | empty =>
    rw [readHyphen_empty]
    refine ⟨intersect [], rfl, fun v => ?_⟩
    simp [contains_intersect, Phrase.Denotes]
  | hyphen lo before after hi =>
    rw [hPhrase] at hReadable
    have hLo := partialOf_written (hReadable lo (by simp [Phrase.versions])) text
    have hHi := partialOf_written (hReadable hi (by simp [Phrase.versions])) text
    simp only [readHyphen_hyphen, hLo, hHi, bind, Except.bind, pure, Except.pure]
    refine ⟨_, rfl, fun v => ?_⟩
    have hMeaning := expands_some.mp (expands_hyphen (components_length lo) (components_length hi))
    rw [contains_intersect, hMeaning v]
    rfl
  | comparators first rest =>
    rw [hPhrase] at hReadable
    obtain ⟨expanded, hTokens, hMeaning⟩ := readTokens_tokens
      (first :: rest.map Prod.snd)
      (fun c hc => hReadable _ (List.mem_map_of_mem hc)) text
    have hWords : words (joinOperators false (Phrase.comparators first rest).text) =
        (first :: rest.map Prod.snd).map Comparator.token := by
      rw [Phrase.text, words_comparators]
      simp
    simp only [readHyphen_comparators, hWords, hTokens, bind, Except.bind, pure, Except.pure]
    have hDenotes (v : Version) : (Phrase.comparators first rest).Denotes v ↔
        ∃ comparators, expanded = some comparators ∧ ∀ c ∈ comparators, c.1.Holds v c.2 :=
      (hMeaning v).symm
    cases expanded with
    | none => exact ⟨_, rfl, fun v => by simp [hDenotes, VersionRange.contains]⟩
    | some comparators => exact ⟨_, rfl, fun v => by simp [hDenotes, contains_intersect]⟩

/-! ## Reading a union -/

theorem not_bar_of_isSpace {c : Char} (h : isSpace c = true) : c ≠ '|' := by
  rintro rfl
  exact absurd h (by decide)

theorem comparator_no_bar {c : Comparator} {d : Char} (h : d ∈ c.text) : d ≠ '|' := by
  rw [Comparator.text] at h
  cases hOp : c.operator with
  | none =>
    rw [hOp] at h
    exact (plain_written h).not_bar
  | some item =>
    obtain ⟨op, spaces⟩ := item
    simp only [hOp, List.mem_append] at h
    rcases h with (h | h) | h
    · exact (plain_operator op h).2
    · exact not_bar_of_isSpace (spaces.isSpace d h)
    · exact (plain_written h).not_bar

theorem side_no_bar {s : Side} {c : Char} (h : c ∈ s.text) : c ≠ '|' := by
  simp only [Side.text, List.mem_append] at h
  rcases h with (h | h) | h
  · exact not_bar_of_isSpace (s.lead.isSpace c h)
  · cases hPhrase : s.phrase with
    | empty => simp [hPhrase, Phrase.text] at h
    | hyphen lo before after hi =>
      simp only [hPhrase, Phrase.text, List.mem_append, List.mem_cons] at h
      rcases h with h | h | rfl | h | h
      · exact (plain_written h).not_bar
      · exact not_bar_of_isSpace (before.isSpace c h)
      · decide
      · exact not_bar_of_isSpace (after.isSpace c h)
      · exact (plain_written h).not_bar
    | comparators first rest =>
      have hRest : ∀ rest : List (Gap × Comparator), c ∈ restText rest → c ≠ '|' := by
        intro rest
        induction rest with
        | nil => simp [restText]
        | cons item rest ih =>
          intro hc
          simp only [restText, List.mem_append] at hc
          rcases hc with hc | hc | hc
          · exact not_bar_of_isSpace (item.1.isSpace c hc)
          · exact comparator_no_bar hc
          · exact ih hc
      simp only [hPhrase, Phrase.text, List.mem_append] at h
      rcases h with h | h
      · exact comparator_no_bar h
      · exact hRest rest h
  · exact not_bar_of_isSpace (s.trail.isSpace c h)

theorem splitBars_sides (first : Side) (rest : List Side) :
    splitBars (sidesText first rest) = (first :: rest).map Side.text := by
  induction rest generalizing first with
  | nil => exact splitBars_of_no_bar fun c hc => side_no_bar hc
  | cons next rest ih =>
    rw [sidesText, splitBars_append fun c hc => side_no_bar hc, ih]
    rfl

theorem mapM_parseSet (sides : List Side)
    (hReadable : ∀ s ∈ sides, ∀ w ∈ s.phrase.versions, w.Readable) (text : String) :
    ∃ ranges, (sides.map Side.text).mapM (fun part => parseSet part text) = .ok ranges ∧
      ∀ v, (ranges.any fun range => range.contains v) = true ↔ ∃ s ∈ sides, s.phrase.Denotes v := by
  induction sides with
  | nil => exact ⟨[], rfl, by simp⟩
  | cons s sides ih =>
    obtain ⟨hs, hReadable⟩ := List.forall_mem_cons.mp hReadable
    obtain ⟨range, hRange, hContains⟩ := parseSet_side hs text
    obtain ⟨ranges, hRanges, hAny⟩ := ih hReadable
    refine ⟨range :: ranges, ?_, fun v => ?_⟩
    · rw [List.map_cons, List.mapM_cons, hRange, hRanges]
      rfl
    · rw [List.any_cons, Bool.or_eq_true, hContains v, hAny v]
      simp

/-- Every range text whose numbers `int` can read is read to a range that contains exactly the
versions some side of it denotes. -/
theorem parse_contains_iff (r : RangeText) (hReadable : r.Readable) :
    ∃ spec, VersionSpec.parse r.text = .ok spec ∧ ∀ v, spec.contains v = true ↔ r.Denotes v := by
  obtain ⟨ranges, hRanges, hAny⟩ := mapM_parseSet r.sides hReadable r.text
  refine ⟨⟨r.text, ranges⟩, ?_, hAny⟩
  rw [VersionSpec.parse]
  have hSides : splitBars r.text.toList = r.sides.map Side.text := by
    rw [RangeText.text, String.toList_ofList]
    exact splitBars_sides r.first r.rest
  rw [hSides, hRanges]
  rfl

def noSpaces : Spaces := ⟨[], by simp⟩

/-- One comparator alone, with nothing around it. -/
def single (op : Option OperatorText) (parts : Parts) : RangeText :=
  let version : Written := ⟨false, parts, [], by simp⟩
  ⟨⟨noSpaces, .comparators ⟨op.map fun op => (op, noSpaces), version⟩ [], noSpaces⟩, []⟩

theorem parse_contains_iff_caret :
    ∃ spec, VersionSpec.parse (single (some .caret) (.two (.num 0) (.num 3))).text = .ok spec ∧
      ∀ v, spec.contains v = true ↔ (single (some .caret) (.two (.num 0) (.num 3))).Denotes v :=
  parse_contains_iff _ (by
    intro s hs w hw n hn
    rw [List.mem_singleton.mp hs] at hw
    rw [List.mem_singleton.mp hw] at hn
    simp only [Written.components, Parts.toList, numbers, List.mem_cons, List.not_mem_nil,
      or_false] at hn
    have hLarge : 3 < 10 ^ maxStrDigits :=
      (by decide : 3 < 10 ^ 1).trans_le (Nat.pow_le_pow_right (by decide) (by decide))
    rcases hn with rfl | rfl
    · exact (Nat.zero_lt_succ 2).trans hLarge
    · exact hLarge)

theorem partialOf_long_number {n : Nat} (hn : 10 ^ maxStrDigits ≤ n) (text : String) :
    partialOf (Parts.one (.num n)).groups text = .error (.int (decimal n).length) := by
  have hInt : int (decimal n) = .error (.int (decimal n).length) := by
    rw [int, intOf_decimal, if_neg (Nat.not_lt.mpr hn)]
  have hWild : isWild (decimal n) = false := by
    rw [Bool.eq_false_iff, ne_eq]
    exact fun h => (isWild_part (.num n)).mp h n rfl
  simp [partialOf, Parts.groups, Part.text, readPartials, hWild, hInt, bind, Except.bind]

theorem parse_long_number {n : Nat} (hn : 10 ^ maxStrDigits ≤ n) :
    VersionSpec.parse (single none (.one (.num n))).text = .error (.int (decimal n).length) := by
  have hSides := splitBars_sides (single none (.one (.num n))).first []
  have hSet (text : String) : parseSet (single none (.one (.num n))).first.text text =
      .error (.int (decimal n).length) := by
    rw [parseSet, strip_side]
    simp only [single, readHyphen_comparators]
    rw [Phrase.text, words_comparators, List.map_nil, readTokens, readComparator_token]
    simp only [partialOf_long_number hn, bind, Except.bind]
  rw [VersionSpec.parse, RangeText.text, String.toList_ofList]
  simp only [single] at hSides hSet ⊢
  rw [hSides, List.map_singleton, List.mapM_cons, hSet]
  rfl

/-- `int` refuses a number of more than 4300 digits, so the text is no range to the source. -/
theorem parse_contains_fails_on_long_number :
    ¬∀ r : RangeText, ∃ spec, VersionSpec.parse r.text = .ok spec ∧
      ∀ v, spec.contains v = true ↔ r.Denotes v := by
  intro hAll
  obtain ⟨spec, hParse, -⟩ := hAll (single none (.one (.num (10 ^ maxStrDigits))))
  rw [parse_long_number le_rfl] at hParse
  cases hParse

end Bajutsu.Devices
