import Mathlib.Data.List.DropRight
import Mathlib.Data.List.TakeWhile

/-!
# Splitting a URL

A URL is split into its scheme, network location, path, query and fragment without decoding any of them. Tabs and
line breaks are removed first, wherever they stand.
-/

namespace Bajutsu.UrlSplit

/-- A C0 control character or a space. -/
def isC0OrSpace (c : Char) : Bool := c.toNat ≤ 0x20

def isUnsafe (c : Char) : Bool := c = '\t' || c = '\r' || c = '\n'

def isSchemeChar (c : Char) : Bool := c.isAlphanum || c = '+' || c = '-' || c = '.'

def isDelimiter (c : Char) : Bool := c = '/' || c = '?' || c = '#'

structure SplitResult where
  scheme : List Char
  netloc : List Char
  path : List Char
  query : List Char
  fragment : List Char

def clean (url : List Char) : List Char := (url.dropWhile isC0OrSpace).filter (!isUnsafe ·)

def splitScheme (url : List Char) : List Char × List Char :=
  match url.takeWhile (· ≠ ':'), url.dropWhile (· ≠ ':') with
  | c :: scheme, _ :: rest =>
    if c.isAlpha && (c :: scheme).all isSchemeChar then ((c :: scheme).map Char.toLower, rest) else ([], url)
  | _, _ => ([], url)

/-- The network location ends at the first delimiter. -/
def splitNetloc : List Char → List Char × List Char
  | '/' :: '/' :: rest => (rest.takeWhile (!isDelimiter ·), rest.dropWhile (!isDelimiter ·))
  | url => ([], url)

/-- What comes before the first separator, and after it. -/
def partition (separator : Char) (text : List Char) : List Char × List Char :=
  (text.takeWhile (· ≠ separator), (text.dropWhile (· ≠ separator)).tail)

section Split

-- The checks of a network location that raise: its brackets, and its characters once they are normalized.
variable (validNetloc : List Char → Bool)

def urlsplit (url : List Char) : Option SplitResult :=
  let (scheme, url) := splitScheme (clean url)
  let (netloc, url) := splitNetloc url
  if netloc ≠ [] && !validNetloc netloc then none
  else
    let (url, fragment) := partition '#' url
    let (path, query) := partition '?' url
    some ⟨scheme, netloc, path, query, fragment⟩

/-- The parameters of the last segment are cut off, for the schemes that have them. -/
def splitParams (path : List Char) : List Char :=
  let last := path.rtakeWhile (· ≠ '/')
  path.rdropWhile (· ≠ '/') ++ last.takeWhile (· ≠ ';')

def usesParams : List String :=
  ["", "ftp", "hdl", "prospero", "http", "https", "shttp", "rtsp", "rtsps", "sip", "sips", "mms", "sftp", "tel"]

/-- The path of `urlparse`. -/
def urlparsePath (url : List Char) : Option (List Char) :=
  (urlsplit validNetloc url).map fun split =>
    if String.ofList split.scheme ∈ usesParams then splitParams split.path else split.path

/-- The host without user information and port, in lower case up to a zone; none if it is empty. -/
def hostname (lower : List Char → List Char) (netloc : List Char) : Option (List Char) :=
  let info := netloc.rtakeWhile (· ≠ '@')
  let host :=
    if '[' ∈ info then (partition ']' (partition '[' info).2).1 else (partition ':' info).1
  if host = [] then none else some (lower (partition '%' host).1 ++ host.dropWhile (· ≠ '%'))

variable {validNetloc}

theorem mem_of_mem_takeWhile {p : Char → Bool} {text : List Char} {c : Char} (h : c ∈ text.takeWhile p) :
    c ∈ text ∧ p c = true :=
  ⟨(List.takeWhile_prefix p).subset h, List.mem_takeWhile_imp h⟩

theorem mem_splitScheme {url : List Char} {c : Char} (h : c ∈ (splitScheme url).2) : c ∈ url := by
  rw [splitScheme] at h
  split at h
  · rename_i c' scheme d rest _ hRest
    split at h
    · have hMem : c ∈ url.dropWhile (· ≠ ':') := by
        rw [hRest]
        exact List.mem_cons_of_mem d h
      exact (List.dropWhile_suffix _).subset hMem
    · exact h
  · exact h

theorem mem_splitNetloc {url : List Char} {c : Char} (h : c ∈ (splitNetloc url).2) : c ∈ url := by
  rw [splitNetloc.eq_def] at h
  split at h
  · have hMem := (List.dropWhile_suffix _).subset h
    exact List.mem_cons_of_mem _ (List.mem_cons_of_mem _ hMem)
  · exact h

/-- A path has neither delimiter of what follows it, and no character that is removed. -/
theorem urlsplit_path_plain {url : List Char} {split : SplitResult} (h : urlsplit validNetloc url = some split)
    {c : Char} (hMem : c ∈ split.path) : c ≠ '?' ∧ c ≠ '#' ∧ isUnsafe c = false := by
  rw [urlsplit] at h
  dsimp only at h
  split at h
  · cases h
  · cases h
    obtain ⟨hBefore, hQuery⟩ := mem_of_mem_takeWhile hMem
    obtain ⟨hAll, hFragment⟩ := mem_of_mem_takeWhile hBefore
    have hClean := mem_splitScheme (mem_splitNetloc hAll)
    have hSafe := (List.mem_filter.mp hClean).2
    exact ⟨of_decide_eq_true hQuery, of_decide_eq_true hFragment, by simpa using hSafe⟩

/-! ## URLs that are put together -/

/-- A URL of a scheme, a location, a path and what follows the path. -/
def compose (scheme netloc path query : List Char) : List Char := scheme ++ ':' :: '/' :: '/' :: (netloc ++ (path ++ query))

/-- The characters that a path keeps. -/
def Plain (text : List Char) : Prop := ∀ c ∈ text, c ≠ '?' ∧ c ≠ '#' ∧ isUnsafe c = false

theorem plain_of_all {text : List Char}
    (h : text.all (fun c => decide (c ≠ '?') && decide (c ≠ '#') && !isUnsafe c) = true) : Plain text := by
  intro c hMem
  have hc := List.all_eq_true.mp h c hMem
  simp only [Bool.and_eq_true, decide_eq_true_eq, Bool.not_eq_true'] at hc
  exact ⟨hc.left.left, hc.left.right, hc.right⟩

/-- A scheme's first character and the others. -/
structure IsScheme (scheme : List Char) : Prop where
  head : ∃ c rest, scheme = c :: rest ∧ c.isAlpha = true
  chars : ∀ c ∈ scheme, isSchemeChar c = true

theorem isSchemeChar_cases {c : Char} (h : isSchemeChar c = true) : c ≠ ':' ∧ isUnsafe c = false ∧ isC0OrSpace c = false := by
  refine ⟨?_, ?_, ?_⟩
  · rintro rfl
    exact absurd h (by decide)
  · by_contra hUnsafe
    have hUnsafe : isUnsafe c = true := by simpa using hUnsafe
    simp only [isUnsafe, Bool.or_eq_true, decide_eq_true_eq] at hUnsafe
    obtain (rfl | rfl) | rfl := hUnsafe
    · exact absurd h (by decide)
    · exact absurd h (by decide)
    · exact absurd h (by decide)
  · refine decide_eq_false fun hSpace => ?_
    delta isSchemeChar Char.isAlphanum Char.isAlpha Char.isUpper Char.isLower Char.isDigit at h
    simp only [Bool.or_eq_true, Bool.and_eq_true, decide_eq_true_eq, ge_iff_le, UInt32.le_iff_toNat_le] at h
    change (((((65 ≤ c.toNat ∧ c.toNat ≤ 90) ∨ (97 ≤ c.toNat ∧ c.toNat ≤ 122)) ∨ (48 ≤ c.toNat ∧ c.toNat ≤ 57)) ∨ c = '+') ∨
      c = '-') ∨ c = '.' at h
    obtain ((hAlphanum | rfl) | rfl) | rfl := h
    · omega
    · exact absurd hSpace (by decide)
    · exact absurd hSpace (by decide)
    · exact absurd hSpace (by decide)

theorem clean_compose {scheme netloc path query : List Char} (hScheme : IsScheme scheme) (hPath : Plain path) :
    clean (compose scheme netloc path query) =
      compose scheme (netloc.filter (!isUnsafe ·)) path (query.filter (!isUnsafe ·)) := by
  obtain ⟨c, rest, rfl, hAlpha⟩ := hScheme.head
  have hKept : (c :: rest).filter (!isUnsafe ·) = c :: rest :=
    List.filter_eq_self.mpr fun d hMem => by simp [(isSchemeChar_cases (hScheme.chars d hMem)).2.1]
  have hPathKept : path.filter (!isUnsafe ·) = path := List.filter_eq_self.mpr fun d hMem => by simp [(hPath d hMem).2.2]
  have hFirst := (isSchemeChar_cases (hScheme.chars c List.mem_cons_self)).2.2
  rw [clean, compose, List.cons_append, List.dropWhile_cons_of_neg (by simp [hFirst]), ← List.cons_append,
    List.filter_append, hKept]
  simp only [List.filter_cons, List.filter_append, hPathKept]
  rfl

theorem splitScheme_compose {scheme netloc path query : List Char} (hScheme : IsScheme scheme) :
    (splitScheme (compose scheme netloc path query)).2 = '/' :: '/' :: (netloc ++ (path ++ query)) := by
  have hColon : ∀ d ∈ scheme, decide (d ≠ ':') = true :=
    fun d hMem => decide_eq_true (isSchemeChar_cases (hScheme.chars d hMem)).1
  rw [splitScheme, compose, List.takeWhile_append_of_pos hColon, List.dropWhile_append_of_pos hColon]
  obtain ⟨c, rest, rfl, hAlpha⟩ := hScheme.head
  have hAll : (c :: rest).all isSchemeChar = true := List.all_eq_true.mpr hScheme.chars
  simp [hAlpha, hAll]

/-- A location without delimiters, and a path that keeps its characters, are split apart again. -/
theorem urlsplit_compose {scheme netloc path query : List Char} (hScheme : IsScheme scheme)
    (hNetloc : ∀ c ∈ netloc, isDelimiter c = false) (hRoot : path.head? = some '/') (hPath : Plain path)
    (hQuery : query = [] ∨ query.head? = some '?') {split : SplitResult}
    (h : urlsplit validNetloc (compose scheme netloc path query) = some split) : split.path = path := by
  rw [urlsplit] at h
  dsimp only at h
  rw [clean_compose hScheme hPath, splitScheme_compose hScheme] at h
  have hLocated : ∀ c ∈ netloc.filter (!isUnsafe ·), (!isDelimiter c) = true := fun c hMem => by
    rw [hNetloc c (List.mem_of_mem_filter hMem)]
    rfl
  obtain ⟨rest, rfl⟩ : ∃ rest, path = '/' :: rest := by
    cases path with
    | nil => cases hRoot
    | cons c rest =>
      obtain rfl := Option.some.inj hRoot
      exact ⟨rest, rfl⟩
  have hDrop : (netloc.filter (!isUnsafe ·) ++ ('/' :: rest ++ query.filter (!isUnsafe ·))).dropWhile (!isDelimiter ·) =
      '/' :: rest ++ query.filter (!isUnsafe ·) := by
    rw [List.dropWhile_append_of_pos hLocated]
    rfl
  rw [splitNetloc, hDrop] at h
  split at h
  · cases h
  · cases h
    have hFragment : ∀ c ∈ '/' :: rest, decide (c ≠ '#') = true := fun c hMem => decide_eq_true (hPath c hMem).2.1
    have hMark : ∀ c ∈ '/' :: rest, decide (c ≠ '?') = true := fun c hMem => decide_eq_true (hPath c hMem).1
    change (((('/' :: rest ++ query.filter (!isUnsafe ·)).takeWhile (· ≠ '#')).takeWhile (· ≠ '?'))) = _
    rw [List.takeWhile_append_of_pos hFragment, List.takeWhile_append_of_pos hMark]
    have hNone : ((query.filter (!isUnsafe ·)).takeWhile (· ≠ '#')).takeWhile (· ≠ '?') = [] := by
      obtain rfl | hQuery := hQuery
      · rfl
      · cases query with
        | nil => rfl
        | cons c query =>
          obtain rfl := Option.some.inj hQuery
          rfl
    rw [hNone, List.append_nil]

/-- For such a location, the path is the one that was put in exactly when it keeps its characters. -/
theorem urlsplit_compose_iff {scheme netloc path query : List Char} (hScheme : IsScheme scheme)
    (hNetloc : ∀ c ∈ netloc, isDelimiter c = false) (hRoot : path.head? = some '/')
    (hQuery : query = [] ∨ query.head? = some '?') {split : SplitResult}
    (h : urlsplit validNetloc (compose scheme netloc path query) = some split) : split.path = path ↔ Plain path := by
  constructor
  · intro hSame c hMem
    exact urlsplit_path_plain h (hSame ▸ hMem)
  · intro hPath
    exact urlsplit_compose hScheme hNetloc hRoot hPath hQuery h

/-! ## Paths alone -/

/-- A URL that is only a path from the root. -/
structure IsPath (url : List Char) : Prop where
  root : url.head? = some '/'
  single : ∀ rest, url ≠ '/' :: '/' :: rest
  plain : Plain url

theorem IsPath.urlsplit {url : List Char} (h : IsPath url) : urlsplit validNetloc url = some ⟨[], [], url, [], []⟩ := by
  obtain ⟨rest, rfl⟩ := List.head?_eq_some_iff.mp h.root
  have hKept : clean ('/' :: rest) = '/' :: rest := by
    rw [clean, List.dropWhile_cons_of_neg (by decide)]
    exact List.filter_eq_self.mpr fun c hMem => by simp [(h.plain c hMem).2.2]
  have hScheme : splitScheme ('/' :: rest) = ([], '/' :: rest) := by
    rw [splitScheme, List.takeWhile_cons_of_pos (by decide)]
    cases List.dropWhile (· ≠ ':') ('/' :: rest) <;> rfl
  have hNetloc : splitNetloc ('/' :: rest) = ([], '/' :: rest) := by
    rw [splitNetloc.eq_def]
    split
    · rename_i rest' hSame
      exact (h.single rest' hSame).elim
    · rfl
  have hWhole (separator : Char) (hNone : ∀ c ∈ '/' :: rest, c ≠ separator) :
      partition separator ('/' :: rest) = ('/' :: rest, []) := by
    have hAll : ∀ c ∈ '/' :: rest, decide (c ≠ separator) = true := fun c hMem => decide_eq_true (hNone c hMem)
    rw [partition, List.takeWhile_eq_self_iff.mpr hAll, List.dropWhile_eq_nil_iff.mpr hAll]
    rfl
  rw [UrlSplit.urlsplit, hKept, hScheme]
  dsimp only
  rw [hNetloc]
  dsimp only
  rw [hWhole '#' fun c hMem => (h.plain c hMem).2.1]
  dsimp only
  rw [hWhole '?' fun c hMem => (h.plain c hMem).1]
  rfl

theorem IsPath.urlparsePath {url : List Char} (h : IsPath url) : urlparsePath validNetloc url = some (splitParams url) := by
  rw [UrlSplit.urlparsePath, h.urlsplit]
  rfl

end Split

end Bajutsu.UrlSplit
