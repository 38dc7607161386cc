import Mathlib.Data.Finset.Sort
import Mathlib.Data.String.Basic
import Bajutsu.Lib.PyValue

/-!
# Resolving a selector to one element

A driver answers `query()` with a flat list of elements and every action addresses one of them by a
selector. Resolution filters by the per-element fields, scopes geometrically by `within`, collapses
twin registrations, drops `other` ties and then insists on a single candidate. The coordinates are of
any type with an addition and an order; glob and pattern matching are parameters.
-/

namespace Bajutsu.Drivers

open PyValue

/-- `x`, `y`, `w`, `h` in points. -/
abbrev Frame (N : Type) := N × N × N × N

structure Element (N : Type) where
  identifier : Option String
  label : Option String
  traits : List String
  value : Option String
  frame : Frame N
  nativeZ : Option N
  crossOriginFrame : Bool

inductive Ids where
  | one (id : String)
  | many (ids : List String)

structure Selector where
  id : Option Ids := none
  idMatches : Option Ids := none
  label : Option String := none
  labelMatches : Option String := none
  traits : Option (List String) := none
  value : Option String := none
  within : Option Selector := none
  index : Option Int := none

inductive ResolveError where
  | noMatch (sel : Selector)
  | indexOutOfRange (index : Int) (candidates : Nat) (sel : Selector)
  | ambiguous (candidates : Nat) (sel : Selector)
  | invalidPattern (pattern : String)

/-- The Python exception each error raises as. -/
inductive ExceptionClass where
  | elementNotFound
  | ambiguousSelector
  | patternError
  deriving DecidableEq

def ResolveError.exceptionClass : ResolveError → ExceptionClass
  | noMatch _ => .elementNotFound
  | indexOutOfRange _ _ _ => .elementNotFound
  | ambiguous _ _ => .ambiguousSelector
  | invalidPattern _ => .patternError

def ambiguousMatchMarker : String := "elements matched"

def ResolveError.message (repr : Selector → String) : ResolveError → String
  | noMatch sel => "no match: " ++ repr sel
  | indexOutOfRange i n sel =>
    "index " ++ toString i ++ " is out of range for " ++ toString n ++ " candidates: " ++ repr sel
  | ambiguous n sel =>
    toString n ++ " " ++ ambiguousMatchMarker ++ " " ++ repr sel ++
      " — add `within` or `index` to disambiguate"
  | invalidPattern pattern => "invalid pattern: " ++ pattern

def traitOther : String := "other"

def idCandidates : Ids → List String
  | .one id => [id]
  | .many ids => ids

section Resolution

variable {N : Type} [Add N] [LE N] [DecidableLE N] [DecidableEq N]
variable (fnmatchcase : String → String → Bool) (compile : String → Option (String → Bool))

def idHolds (el : Element N) (sel : Selector) : Bool :=
  match sel.id with
  | none => true
  | some ids => el.identifier ∈ (idCandidates ids).map some

def idMatchesHolds (el : Element N) (sel : Selector) : Bool :=
  match sel.idMatches, el.identifier with
  | none, _ => true
  | some _, none => false
  | some ids, some ident => (idCandidates ids).any fun p => fnmatchcase ident p

def traitsAndValueHold (el : Element N) (sel : Selector) : Bool :=
  (match sel.traits with
    | none => true
    | some traits => traits.all fun t => t ∈ el.traits) &&
  match sel.value with
  | none => true
  | some value => el.value = some value

/-- `matches`: the AND of the per-element fields, in the source's order. A pattern is compiled only
for an element that has a label and passed the fields before it. -/
def matchesSelector (el : Element N) (sel : Selector) : Except ResolveError Bool :=
  if !idHolds el sel || !idMatchesHolds fnmatchcase el sel then .ok false
  else if sel.label.isSome && el.label ≠ sel.label then .ok false
  else
    match sel.labelMatches, el.label with
    | none, _ => .ok (traitsAndValueHold el sel)
    | some _, none => .ok false
    | some pattern, some label =>
      match compile pattern with
      | none => .error (.invalidPattern pattern)
      | some search => .ok (search label && traitsAndValueHold el sel)

/-- `[el for el in elements if ...]`, where evaluating the condition may raise. -/
def scan (holds : Element N → Except ResolveError Bool) :
    List (Element N) → Except ResolveError (List (Element N))
  | [] => .ok []
  | el :: elements =>
    match holds el with
    | .error e => .error e
    | .ok keep => (scan holds elements).map fun found => if keep then el :: found else found

/-- `idx.setdefault(el["identifier"], []).append(el)` over the snapshot. -/
def idIndex (elements : List (Element N)) : List (Option String × List (Element N)) :=
  groupBy Element.identifier elements

def contains (outer inner : Frame N) : Bool :=
  let (ox, oy, ow, oh) := outer
  let (ix, iy, iw, ih) := inner
  ox ≤ ix ∧ oy ≤ iy ∧ ix + iw ≤ ox + ow ∧ iy + ih ≤ oy + oh

/-- The id of a selector that names one id and nothing else but `within`. -/
def singleId (sel : Selector) : Option String :=
  match sel with
  | { id := some ids, idMatches := none, label := none, labelMatches := none, traits := none,
      value := none, within := _, index := none } =>
    match idCandidates ids with
    | [id] => some id
    | _ => none
  | _ => none

def baseMatches (elements : List (Element N)) (sel : Selector) :
    Except ResolveError (List (Element N)) :=
  match singleId sel with
  | some id => .ok ((get (idIndex elements) (some id)).getD [])
  | none => scan (fun el => matchesSelector fnmatchcase compile el sel) elements

def inScopes (scopes : List (Element N)) (el : Element N) : Bool :=
  scopes.any fun parent => contains parent.frame el.frame

def findAll (elements : List (Element N)) (sel : Selector) :
    Except ResolveError (List (Element N)) :=
  match baseMatches fnmatchcase compile elements sel with
  | .error e => .error e
  | .ok found =>
    match sel with
    | { within := none, .. } => .ok found
    | { within := some parent, .. } =>
      (findAll elements parent).map fun scopes => found.filter (inScopes scopes)

/-- The content two registrations of one node share; `traits` is `tuple(sorted(set(...)))`. -/
structure Key (N : Type) where
  identifier : Option String
  label : Option String
  traits : List String
  value : Option String
  frame : Frame N
  deriving DecidableEq

def key (el : Element N) : Key N :=
  ⟨el.identifier, el.label, el.traits.toFinset.sort, el.value, el.frame⟩

def collapseIdenticalDuplicates (candidates : List (Element N)) : List (Element N) :=
  (candidates.foldl (fun seen el => setdefault seen (key el) el) []).map Prod.snd

def withoutOther (candidates : List (Element N)) : List (Element N) :=
  candidates.filter fun el => traitOther ∉ el.traits

/-- Drops the `other` ties, unless the selector asks for them or every candidate is one. -/
def dropOtherTies (sel : Selector) (candidates : List (Element N)) : List (Element N) :=
  if 1 < candidates.length ∧ traitOther ∉ sel.traits.getD [] ∧ withoutOther candidates ≠ [] then
    withoutOther candidates
  else candidates

/-- `candidates[i]`, a negative `i` counting from the end. -/
def nth (candidates : List (Element N)) (i : Int) : Option (Element N) :=
  if -(candidates.length : Int) ≤ i ∧ i < candidates.length then
    candidates[(if i < 0 then i + candidates.length else i).toNat]?
  else none

def pick (sel : Selector) (candidates : List (Element N)) : Except ResolveError (Element N) :=
  match sel.index with
  | some i =>
    match nth candidates i with
    | none => .error (.indexOutOfRange i candidates.length sel)
    | some el => .ok el
  | none =>
    match candidates with
    | [] => .error (.noMatch sel)
    | [el] => .ok el
    | _ => .error (.ambiguous candidates.length sel)

def resolveUnique (elements : List (Element N)) (sel : Selector) :
    Except ResolveError (Element N) :=
  match findAll fnmatchcase compile elements sel with
  | .error e => .error e
  | .ok found => pick sel (dropOtherTies sel (collapseIdenticalDuplicates found))

end Resolution

/-! ## The contents of a snapshot -/

section Contents

variable {N : Type}

/-- Equal on the five fields a candidate is judged by, `traits` compared as a set. -/
structure SameContent (el el' : Element N) : Prop where
  identifier : el.identifier = el'.identifier
  label : el.label = el'.label
  traits : ∀ t, t ∈ el.traits ↔ t ∈ el'.traits
  value : el.value = el'.value
  frame : el.frame = el'.frame

theorem key_eq_iff {el el' : Element N} : key el = key el' ↔ SameContent el el' := by
  constructor
  · intro h
    simp only [key, Key.mk.injEq] at h
    obtain ⟨hIdentifier, hLabel, hTraits, hValue, hFrame⟩ := h
    refine ⟨hIdentifier, hLabel, fun t => ?_, hValue, hFrame⟩
    rw [← List.mem_toFinset, ← Finset.mem_sort (· ≤ ·), hTraits, Finset.mem_sort, List.mem_toFinset]
  · intro h
    have hTraits : el.traits.toFinset = el'.traits.toFinset := by
      ext t
      rw [List.mem_toFinset, List.mem_toFinset, h.traits t]
    simp only [key, h.identifier, h.label, hTraits, h.value, h.frame]

/-- Two snapshots hold the same contents, each any number of times and in any order. -/
def SameContents (es es' : List (Element N)) : Prop := ∀ k, k ∈ es.map key ↔ k ∈ es'.map key

theorem SameContents.symm {es es' : List (Element N)} (h : SameContents es es') :
    SameContents es' es := fun k => (h k).symm

theorem SameContents.exists_mem {es es' : List (Element N)} (h : SameContents es es')
    {el : Element N} (hMem : el ∈ es) : ∃ el' ∈ es', SameContent el' el := by
  obtain ⟨el', hMem', hKey⟩ := List.mem_map.mp ((h (key el)).mp (List.mem_map_of_mem hMem))
  exact ⟨el', hMem', key_eq_iff.mp hKey⟩

/-- Permuting a snapshot and registering its elements any number of times keeps its contents. -/
theorem sameContents_redraw {es es' : List (Element N)} {copies : Element N → List (Element N)}
    (hCopies : ∀ el ∈ es, copies el ≠ [] ∧ ∀ c ∈ copies el, SameContent c el)
    (hPerm : es'.Perm (es.flatMap copies)) : SameContents es es' := by
  intro k
  constructor
  · intro hk
    obtain ⟨el, hMem, rfl⟩ := List.mem_map.mp hk
    obtain ⟨hNe, hSame⟩ := hCopies el hMem
    obtain ⟨c, hc⟩ := List.exists_mem_of_ne_nil _ hNe
    refine List.mem_map.mpr ⟨c, ?_, key_eq_iff.mpr (hSame c hc)⟩
    exact hPerm.mem_iff.mpr (List.mem_flatMap.mpr ⟨el, hMem, hc⟩)
  · intro hk
    obtain ⟨c, hMem, rfl⟩ := List.mem_map.mp hk
    obtain ⟨el, hEl, hc⟩ := List.mem_flatMap.mp (hPerm.mem_iff.mp hMem)
    rw [key_eq_iff.mpr ((hCopies el hEl).2 c hc)]
    exact List.mem_map_of_mem hEl

theorem SameContents.filter {es es' : List (Element N)} (h : SameContents es es')
    {p p' : Element N → Bool} (hp : ∀ el el', SameContent el el' → p el = p' el') :
    SameContents (es.filter p) (es'.filter p') := by
  intro k
  simp only [List.mem_map, List.mem_filter]
  constructor
  · rintro ⟨el, ⟨hMem, hHolds⟩, rfl⟩
    obtain ⟨el', hMem', hSame⟩ := h.exists_mem hMem
    have hKey := key_eq_iff.mpr hSame
    exact ⟨el', ⟨hMem', by rw [← hp el el' (key_eq_iff.mp hKey.symm), hHolds]⟩, hKey⟩
  · rintro ⟨el', ⟨hMem', hHolds⟩, rfl⟩
    obtain ⟨el, hMem, hSame⟩ := h.symm.exists_mem hMem'
    exact ⟨el, ⟨hMem, by rw [hp el el' hSame, hHolds]⟩, key_eq_iff.mpr hSame⟩

/-- What the same filter makes of two snapshots: one error, or the same contents. -/
def Agree : Except ResolveError (List (Element N)) → Except ResolveError (List (Element N)) → Prop
  | .ok es, .ok es' => SameContents es es'
  | .error e, .error e' => e = e'
  | _, _ => False

theorem Agree.bind {r r' : Except ResolveError (List (Element N))}
    {f f' : List (Element N) → Except ResolveError (List (Element N))} (h : Agree r r')
    (hf : ∀ es es', SameContents es es' → Agree (f es) (f' es')) : Agree (r.bind f) (r'.bind f') := by
  match r, r' with
  | .ok es, .ok es' => exact hf es es' h
  | .error e, .error e' => exact h

theorem scan_cases (holds : Element N → Except ResolveError Bool) (es : List (Element N)) :
    (∃ el e, el ∈ es ∧ holds el = .error e ∧ scan holds es = .error e) ∨
      (∀ el ∈ es, ∃ keep, holds el = .ok keep) ∧
        scan holds es = .ok (es.filter fun el => (holds el).toOption = some true) := by
  induction es with
  | nil => exact .inr ⟨by simp, rfl⟩
  | cons el es ih =>
    rw [scan]
    cases hHolds : holds el with
    | error e => exact .inl ⟨el, e, List.mem_cons_self, hHolds, rfl⟩
    | ok keep =>
      rcases ih with ⟨bad, e, hMem, hError, hScan⟩ | ⟨hAll, hScan⟩
      · exact .inl ⟨bad, e, List.mem_cons_of_mem _ hMem, hError, by simp [hScan, Except.map]⟩
      · refine .inr ⟨List.forall_mem_cons.mpr ⟨⟨keep, hHolds⟩, hAll⟩, ?_⟩
        cases keep <;> simp [hScan, Except.map, hHolds, Except.toOption]

theorem agree_scan {holds : Element N → Except ResolveError Bool} {es es' : List (Element N)}
    (hHolds : ∀ el el', SameContent el el' → holds el = holds el')
    (hError : ∀ el el' e e', holds el = .error e → holds el' = .error e' → e = e')
    (h : SameContents es es') : Agree (scan holds es) (scan holds es') := by
  rcases scan_cases holds es with ⟨bad, e, hMem, hBad, hScan⟩ | ⟨hAll, hScan⟩ <;>
    rcases scan_cases holds es' with ⟨bad', e', hMem', hBad', hScan'⟩ | ⟨hAll', hScan'⟩ <;>
    rw [hScan, hScan']
  · exact hError bad bad' e e' hBad hBad'
  · obtain ⟨el, hEl, hSame⟩ := h.exists_mem hMem
    obtain ⟨keep, hKeep⟩ := hAll' el hEl
    rw [hHolds el bad hSame, hBad] at hKeep
    cases hKeep
  · obtain ⟨el, hEl, hSame⟩ := h.symm.exists_mem hMem'
    obtain ⟨keep, hKeep⟩ := hAll el hEl
    rw [hHolds el bad' hSame, hBad'] at hKeep
    cases hKeep
  · exact h.filter fun el el' hSame => by rw [hHolds el el' hSame]

theorem collapse_cases [DecidableEq N] (candidates : List (Element N)) :
    ((collapseIdenticalDuplicates candidates).map key).Nodup ∧
      SameContents candidates (collapseIdenticalDuplicates candidates) := by
  obtain ⟨hNodup, hKeys, hItems, hAll⟩ :=
    foldl_setdefault key candidates [] List.nodup_nil (by simp)
  have hMap : (collapseIdenticalDuplicates candidates).map key =
      (candidates.foldl (fun seen el => setdefault seen (key el) el) []).map Prod.fst := by
    rw [collapseIdenticalDuplicates, List.map_map]
    exact List.map_congr_left hKeys
  refine ⟨by rwa [hMap], fun k => ?_⟩
  rw [hMap, hAll k]
  simp

end Contents

/-! ## Resolution reads contents only -/

section Invariance

variable {N : Type} {fnmatchcase : String → String → Bool}
variable {compile : String → Option (String → Bool)}

theorem traitsAndValueHold_congr {el el' : Element N} (h : SameContent el el') (sel : Selector) :
    traitsAndValueHold el sel = traitsAndValueHold el' sel := by
  have hTraits (t : String) : decide (t ∈ el.traits) = decide (t ∈ el'.traits) :=
    decide_eq_decide.mpr (h.traits t)
  simp only [traitsAndValueHold, h.value, hTraits]

theorem matchesSelector_congr {el el' : Element N} (h : SameContent el el') (sel : Selector) :
    matchesSelector fnmatchcase compile el sel = matchesSelector fnmatchcase compile el' sel := by
  have hId : idHolds el sel = idHolds el' sel := by rw [idHolds, idHolds, h.identifier]
  have hGlob : idMatchesHolds fnmatchcase el sel = idMatchesHolds fnmatchcase el' sel := by
    rw [idMatchesHolds, idMatchesHolds, h.identifier]
  rw [matchesSelector, matchesSelector, hId, hGlob, h.label, traitsAndValueHold_congr h]

theorem matchesSelector_error {el : Element N} {sel : Selector} {e : ResolveError}
    (h : matchesSelector fnmatchcase compile el sel = .error e) :
    ∃ pattern, sel.labelMatches = some pattern ∧ e = .invalidPattern pattern := by
  rw [matchesSelector] at h
  split at h
  · cases h
  · split at h
    · cases h
    · split at h
      · cases h
      · cases h
      · rename_i pattern label hPattern hLabel
        split at h
        · cases h
          exact ⟨pattern, hPattern, rfl⟩
        · cases h

theorem matchesSelector_singleId {sel : Selector} {id : String} (h : singleId sel = some id)
    (el : Element N) :
    matchesSelector fnmatchcase compile el sel = .ok (el.identifier = some id) := by
  unfold singleId at h
  split at h
  · rename_i ids parent
    split at h
    · rename_i candidate hCandidates
      cases h
      by_cases hId : el.identifier = some id
      · simp [matchesSelector, idHolds, idMatchesHolds, traitsAndValueHold, hCandidates, hId]
      · simp [matchesSelector, idHolds, hCandidates, hId]
    · cases h
  · cases h

theorem baseMatches_eq_scan (elements : List (Element N)) (sel : Selector) :
    baseMatches fnmatchcase compile elements sel =
      scan (fun el => matchesSelector fnmatchcase compile el sel) elements := by
  rw [baseMatches]
  cases hSingle : singleId sel with
  | none => rfl
  | some id =>
    have hMatches := @matchesSelector_singleId N fnmatchcase compile sel id hSingle
    rcases scan_cases (fun el => matchesSelector fnmatchcase compile el sel) elements with
      ⟨el, e, _, hError, _⟩ | ⟨_, hScan⟩
    · simp only [hMatches el] at hError
      cases hError
    · rw [hScan, idIndex]
      simp [hMatches, get_groupBy, Except.toOption]

theorem agree_baseMatches {es es' : List (Element N)} (h : SameContents es es') (sel : Selector) :
    Agree (baseMatches fnmatchcase compile es sel) (baseMatches fnmatchcase compile es' sel) := by
  rw [baseMatches_eq_scan, baseMatches_eq_scan]
  refine agree_scan (fun el el' hSame => matchesSelector_congr hSame sel) ?_ h
  intro el el' e e' hError hError'
  obtain ⟨pattern, hPattern, rfl⟩ := matchesSelector_error hError
  obtain ⟨pattern', hPattern', rfl⟩ := matchesSelector_error hError'
  rw [hPattern] at hPattern'
  cases hPattern'
  rfl

theorem dropOtherTies_sameContents {es es' : List (Element N)} (sel : Selector)
    (hNodup : (es.map key).Nodup) (hNodup' : (es'.map key).Nodup) (h : SameContents es es') :
    ((dropOtherTies sel es).map key).Perm ((dropOtherTies sel es').map key) := by
  have hPerm : (es.map key).Perm (es'.map key) := (List.perm_ext_iff_of_nodup hNodup hNodup').mpr h
  have hLength : es.length = es'.length := by simpa using hPerm.length_eq
  have hOther : SameContents (withoutOther es) (withoutOther es') :=
    h.filter fun el el' hSame => by rw [decide_eq_decide, hSame.traits]
  have hNe : withoutOther es ≠ [] ↔ withoutOther es' ≠ [] := by
    constructor
    · intro hEs
      obtain ⟨el, hMem⟩ := List.exists_mem_of_ne_nil _ hEs
      obtain ⟨el', hMem', _⟩ := hOther.exists_mem hMem
      exact List.ne_nil_of_mem hMem'
    · intro hEs
      obtain ⟨el, hMem⟩ := List.exists_mem_of_ne_nil _ hEs
      obtain ⟨el', hMem', _⟩ := hOther.symm.exists_mem hMem
      exact List.ne_nil_of_mem hMem'
  simp only [dropOtherTies, hLength, hNe]
  split
  · refine (List.perm_ext_iff_of_nodup ?_ ?_).mpr hOther
    · exact hNodup.sublist (List.filter_sublist.map key)
    · exact hNodup'.sublist (List.filter_sublist.map key)
  · exact hPerm

/-- One verdict for both snapshots: the same error, or elements equal on the five fields. -/
def SameVerdict : Except ResolveError (Element N) → Except ResolveError (Element N) → Prop
  | .ok el, .ok el' => SameContent el el'
  | .error e, .error e' => e = e'
  | _, _ => False

theorem pick_sameVerdict {sel : Selector} (hIndex : sel.index = none) {es es' : List (Element N)}
    (h : (es.map key).Perm (es'.map key)) : SameVerdict (pick sel es) (pick sel es') := by
  have hLength : es.length = es'.length := by simpa using h.length_eq
  simp only [pick, hIndex]
  match es, es', hLength with
  | [], [], _ => rfl
  | [el], [el'], _ =>
    exact key_eq_iff.mp (by simpa using h)
  | a :: b :: es, a' :: b' :: es', hLength =>
    simp only [SameVerdict, hLength]

variable [Add N] [LE N] [DecidableLE N]

theorem findAll_eq (elements : List (Element N)) (sel : Selector) :
    findAll fnmatchcase compile elements sel =
      (baseMatches fnmatchcase compile elements sel).bind fun found =>
        match sel.within with
        | none => .ok found
        | some parent =>
          (findAll fnmatchcase compile elements parent).bind fun scopes =>
            .ok (found.filter (inScopes scopes)) := by
  rw [findAll.eq_def]
  cases baseMatches fnmatchcase compile elements sel with
  | error e => rfl
  | ok found =>
    obtain ⟨_, _, _, _, _, _, within, _⟩ := sel
    cases within with
    | none => rfl
    | some parent =>
      cases hParent : findAll fnmatchcase compile elements parent <;>
        simp [hParent, Except.map, Except.bind]

theorem inScopes_congr {scopes scopes' : List (Element N)} (h : SameContents scopes scopes')
    {el el' : Element N} (hSame : SameContent el el') : inScopes scopes el = inScopes scopes' el' := by
  rw [Bool.eq_iff_iff, inScopes, inScopes, List.any_eq_true, List.any_eq_true, hSame.frame]
  constructor
  · rintro ⟨parent, hMem, hContains⟩
    obtain ⟨parent', hMem', hParent⟩ := h.exists_mem hMem
    exact ⟨parent', hMem', by rwa [hParent.frame]⟩
  · rintro ⟨parent, hMem, hContains⟩
    obtain ⟨parent', hMem', hParent⟩ := h.symm.exists_mem hMem
    exact ⟨parent', hMem', by rwa [hParent.frame]⟩

theorem agree_findAll {es es' : List (Element N)} (h : SameContents es es') (sel : Selector) :
    Agree (findAll fnmatchcase compile es sel) (findAll fnmatchcase compile es' sel) := by
  induction hSize : sizeOf sel using Nat.strong_induction_on generalizing sel with
  | _ n ih =>
    rw [findAll_eq, findAll_eq]
    refine (agree_baseMatches h sel).bind fun found found' hFound => ?_
    obtain ⟨_, _, _, _, _, _, within, _⟩ := sel
    cases within with
    | none => exact hFound
    | some parent =>
      have hScopes := ih (sizeOf parent) (by simp at hSize; omega) parent rfl
      exact hScopes.bind fun scopes scopes' hScopes =>
        SameContents.filter hFound fun el el' hSame => inScopes_congr hScopes hSame

variable [DecidableEq N]

theorem resolveUnique_sameContents {es es' : List (Element N)} (h : SameContents es es')
    {sel : Selector} (hIndex : sel.index = none) :
    SameVerdict (resolveUnique fnmatchcase compile es sel)
      (resolveUnique fnmatchcase compile es' sel) := by
  have hFound := @agree_findAll N fnmatchcase compile _ _ _ _ _ h sel
  rw [resolveUnique, resolveUnique]
  match hLeft : findAll fnmatchcase compile es sel,
    hRight : findAll fnmatchcase compile es' sel with
  | .error e, .error e' => rwa [hLeft, hRight] at hFound
  | .error e, .ok found => simp [hLeft, hRight, Agree] at hFound
  | .ok found, .error e => simp [hLeft, hRight, Agree] at hFound
  | .ok found, .ok found' =>
    rw [hLeft, hRight] at hFound
    obtain ⟨hNodup, hSame⟩ := collapse_cases found
    obtain ⟨hNodup', hSame'⟩ := collapse_cases found'
    refine pick_sameVerdict hIndex (dropOtherTies_sameContents sel hNodup hNodup' fun k => ?_)
    rw [← hSame k, ← hSame' k]
    exact hFound k

/-- Neither the order of a snapshot nor how often an element is registered changes the verdict. -/
theorem resolveUnique_redraw (sel : Selector) (hIndex : sel.index = none)
    (es es' : List (Element N)) (copies : Element N → List (Element N))
    (hCopies : ∀ el ∈ es, copies el ≠ [] ∧ ∀ c ∈ copies el, SameContent c el)
    (hPerm : es'.Perm (es.flatMap copies)) :
    SameVerdict (resolveUnique fnmatchcase compile es sel)
      (resolveUnique fnmatchcase compile es' sel) :=
  resolveUnique_sameContents (sameContents_redraw hCopies hPerm) hIndex

end Invariance

def button (label : String) (traits : List String) (x : Int) : Element Int :=
  { identifier := none, label := some label, traits := traits, value := none,
    frame := (x, 0, 10, 10), nativeZ := none, crossOriginFrame := false }

theorem resolveUnique_redraw_twins :
    SameVerdict
      (resolveUnique (fun s p => s == p) (fun p => some fun s => s == p)
        [button "OK" ["button"] 0, button "OK" ["other"] 5] { label := some "OK" })
      (resolveUnique (fun s p => s == p) (fun p => some fun s => s == p)
        [button "OK" ["other"] 5, button "OK" ["button"] 0, button "OK" ["button"] 0,
          button "OK" ["other"] 5]
        { label := some "OK" }) :=
  resolveUnique_redraw { label := some "OK" } rfl _ _ (fun el => [el, el])
    (fun el _ => ⟨List.cons_ne_nil _ _, fun c hc => by
      rw [show c = el by simpa using hc]
      exact ⟨rfl, rfl, fun _ => Iff.rfl, rfl, rfl⟩⟩)
    (@List.perm_append_comm _ [button "OK" ["other"] 5]
      [button "OK" ["button"] 0, button "OK" ["button"] 0, button "OK" ["other"] 5])

end Bajutsu.Drivers
