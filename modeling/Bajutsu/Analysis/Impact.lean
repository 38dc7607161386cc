import Mathlib.Data.List.Lex
import Mathlib.Data.Prod.Lex
import Mathlib.Data.List.Sort
import Mathlib.Data.List.Dedup
import Mathlib.Order.TypeTags
import Bajutsu.Lib.Multimap
import Bajutsu.Analysis.ChangedFiles
import Bajutsu.Analysis.References

/-!
# The steps that a change affects

The references of a suite are inverted into the steps that hold them and looked for in the changed lines of a diff. A
run of only the affected steps is sound when every reference on a changed line brings in its scenario, or the report says
that it is incomplete.
-/

namespace Bajutsu.Analysis

open UnifiedDiff Multimap

/-! ## The reverse index -/

structure StepRef where
  scenario : String
  index : Nat
  label : String
  deriving DecidableEq

def StepRef.key (ref : StepRef) : String ×ₗ Nat ×ₗ String := toLex (ref.scenario, toLex (ref.index, ref.label))

def Kind.text : Kind → String
  | id => "id"
  | screen => "screen"
  | endpoint => "endpoint"

def Reference.key (ref : Reference) : String ×ₗ String := toLex (ref.kind.text, ref.value)

def sortedBy {α κ : Type} [LinearOrder κ] (key : α → κ) (items : List α) : List α :=
  items.insertionSort fun a b => key a ≤ key b

def Leaf.key : Leaf → String
  | tap _ => "tap"
  | tapPoint => "tapPoint"
  | doubleTap _ => "doubleTap"
  | longPress _ => "longPress"
  | type _ => "type"
  | select _ => "select"
  | clear _ => "clear"
  | delete _ => "delete"
  | copy => "copy"
  | selectOption _ => "selectOption"
  | selectPhotos => "selectPhotos"
  | setPickerValue _ => "setPickerValue"
  | swipe _ => "swipe"
  | drag _ => "drag"
  | scroll _ _ => "scroll"
  | back => "back"
  | navigate _ => "navigate"
  | pinch _ => "pinch"
  | rotate _ => "rotate"
  | wait _ => "wait"
  | sleep => "sleep"
  | assert _ => "assert"
  | relaunch => "relaunch"
  | setLocation => "setLocation"
  | push => "push"
  | use => "use"
  | http _ => "http"
  | totp => "totp"
  | generate => "generate"
  | eval => "eval"
  | email => "email"
  | clearKeychain => "clearKeychain"
  | clearClipboard => "clearClipboard"
  | setClipboard => "setClipboard"
  | setMocks _ => "setMocks"
  | background => "background"
  | foreground => "foreground"
  | installApp => "installApp"
  | setPrimaryTarget => "setPrimaryTarget"
  | overrideStatusBar => "overrideStatusBar"
  | clearStatusBar => "clearStatusBar"
  | handleSystemAlert _ => "handleSystemAlert"
  | manual => "manual"

def Action.key : Action Step → String
  | leaf action => action.key
  | web _ _ => "web"
  | app _ => "app"
  | steps _ => "steps"
  | if_ _ _ _ => "if"
  | forEach _ _ => "forEach"
  | group _ => "group"

/-- A step's `name`, else its action's key; every step has an action. -/
def stepLabel (st : Step) : String :=
  match st.name.filter (· ≠ "") with
  | some name => name
  | none => st.action.key

def stepPairs (scenario : Scenario) : List (Reference × StepRef) :=
  (scenario.steps.zipIdx 1).flatMap fun (st, i) =>
    let ref : StepRef := ⟨scenario.name, i, stepLabel st⟩
    (stepMatchableIds st).map (fun rid => (⟨.id, rid⟩, ref)) ++
      (requestLiterals (stepRequests st)).map fun literal => (⟨.endpoint, literal⟩, ref)

/-- The references that no single step owns. -/
def scenarioPairs (scenario : Scenario) : List (Reference × StepRef) :=
  let stepIds := scenario.steps.flatMap stepMatchableIds
  let stepEndpoints := scenario.steps.flatMap fun st => requestLiterals (stepRequests st)
  let expectRef : StepRef := ⟨scenario.name, 0, "expect"⟩
  ((scenario.deeplink.filter (· ≠ "")).toList.map fun link => (⟨.screen, link⟩, ⟨scenario.name, 0, "screen"⟩)) ++
    ((scenarioMatchableIds scenario).filter (· ∉ stepIds)).map (fun rid => (⟨.id, rid⟩, expectRef)) ++
    ((requestLiterals (referencedRequests scenario)).filter (· ∉ stepEndpoints)).map fun literal =>
      (⟨.endpoint, literal⟩, expectRef)

abbrev ReverseIndex := List (Reference × List StepRef)

def reverseIndex (scenarios : List Scenario) : ReverseIndex :=
  (ofPairs (scenarios.flatMap fun scenario => stepPairs scenario ++ scenarioPairs scenario)).map fun (ref, steps) =>
    (ref, sortedBy StepRef.key steps)

/-! ## The impact -/

structure AffectedStep where
  step : StepRef
  reasons : List Reference

structure TouchedRef where
  reference : Reference
  files : List Text

structure Impact where
  affected : List AffectedStep
  touched : List TouchedRef
  unattributable : List Text
  complete : Bool

/-- `value in line` -/
def Carries (value : String) (line : Text) : Prop := value.toList <:+: line

instance (value : String) (line : Text) : Decidable (Carries value line) := inferInstanceAs (Decidable (_ <:+: _))

/-- The paths of the changed files with a line that carries the value. -/
def touching (value : String) (changed : List ChangedFile) : List Text :=
  (changed.filter fun file => file.lines.any fun line => Carries value line).map ChangedFile.path

structure Hit where
  reference : Reference
  steps : List StepRef
  files : List Text

def hits (index : ReverseIndex) (changed : List ChangedFile) : List Hit :=
  (index.map fun (ref, steps) => (⟨ref, steps, touching ref.value changed⟩ : Hit)).filter (·.files ≠ [])

local instance lawfulText : LawfulBEq Text := inferInstance

def impact (index : ReverseIndex) (changed : List ChangedFile) : Impact :=
  let found := hits index changed
  let reasonsByStep := ofPairs (found.flatMap fun hit => hit.steps.map fun st => (st, hit.reference))
  let attributed := found.flatMap Hit.files
  let affected := reasonsByStep.map fun (st, reasons) => (⟨st, sortedBy Reference.key reasons⟩ : AffectedStep)
  let touched := found.map fun hit => (⟨hit.reference, sortedBy id hit.files.dedup⟩ : TouchedRef)
  let unattributable := sortedBy id
    ((changed.filter fun file => file.path ∉ attributed && (file.binary || file.lines ≠ [])).map ChangedFile.path).dedup
  { affected := sortedBy (fun a => toLex (a.step.key, a.reasons.map Reference.key)) affected
    touched := sortedBy (fun t => toLex (t.reference.key, t.files)) touched
    unattributable
    complete := unattributable.isEmpty }

/-! ## What the index holds -/

theorem mem_sortedBy {α κ : Type} [LinearOrder κ] {key : α → κ} {items : List α} {item : α} :
    item ∈ sortedBy key items ↔ item ∈ items :=
  (List.perm_insertionSort _ items).mem_iff

/-- The screen that a scenario opens by a link. -/
def Scenario.Opens (scenario : Scenario) (ref : Reference) : Prop :=
  ref.kind = .screen ∧ scenario.deeplink = some ref.value ∧ ref.value ≠ ""

theorem stepPairs_iff {scenario : Scenario} {ref : Reference} :
    (∃ st, (ref, st) ∈ stepPairs scenario) ↔ ref.kind = .id ∧ ref.value ∈ scenario.steps.flatMap stepMatchableIds ∨
      ref.kind = .endpoint ∧ ref.value ∈ scenario.steps.flatMap fun st => requestLiterals (stepRequests st) := by
  constructor
  · rintro ⟨st, hMem⟩
    obtain ⟨⟨step, i⟩, hStep, hPair⟩ := List.mem_flatMap.mp hMem
    have hStep : step ∈ scenario.steps := List.fst_mem_of_mem_zipIdx hStep
    obtain hPair | hPair := List.mem_append.mp hPair
    · obtain ⟨rid, hId, hEq⟩ := List.mem_map.mp hPair
      cases hEq
      exact .inl ⟨rfl, List.mem_flatMap.mpr ⟨step, hStep, hId⟩⟩
    · obtain ⟨literal, hLiteral, hEq⟩ := List.mem_map.mp hPair
      cases hEq
      exact .inr ⟨rfl, List.mem_flatMap.mpr ⟨step, hStep, hLiteral⟩⟩
  · obtain ⟨kind, value⟩ := ref
    have hNumbered {step : Step} (hStep : step ∈ scenario.steps) : ∃ i, (step, i) ∈ scenario.steps.zipIdx 1 := by
      rw [← List.zipIdx_map_fst 1 scenario.steps] at hStep
      obtain ⟨⟨_, i⟩, hMem, rfl⟩ := List.mem_map.mp hStep
      exact ⟨i, hMem⟩
    rintro (⟨hKind, hValue⟩ | ⟨hKind, hValue⟩)
    · obtain ⟨step, hStep, hId⟩ := List.mem_flatMap.mp hValue
      obtain ⟨i, hMem⟩ := hNumbered hStep
      obtain rfl : kind = .id := hKind
      exact ⟨_, List.mem_flatMap.mpr ⟨_, hMem, List.mem_append_left _ (List.mem_map.mpr ⟨value, hId, rfl⟩)⟩⟩
    · obtain ⟨step, hStep, hLiteral⟩ := List.mem_flatMap.mp hValue
      obtain ⟨i, hMem⟩ := hNumbered hStep
      obtain rfl : kind = .endpoint := hKind
      exact ⟨_, List.mem_flatMap.mpr ⟨_, hMem, List.mem_append_right _ (List.mem_map.mpr ⟨value, hLiteral, rfl⟩)⟩⟩

theorem scenarioPairs_iff {scenario : Scenario} {ref : Reference} :
    (∃ st, (ref, st) ∈ scenarioPairs scenario) ↔ scenario.Opens ref ∨
      (ref.kind = .id ∧ ref.value ∈ scenarioMatchableIds scenario ∧ ref.value ∉ scenario.steps.flatMap stepMatchableIds) ∨
        ref.kind = .endpoint ∧ ref.value ∈ requestLiterals (referencedRequests scenario) ∧
          ref.value ∉ scenario.steps.flatMap fun st => requestLiterals (stepRequests st) := by
  obtain ⟨kind, value⟩ := ref
  simp only [scenarioPairs, List.mem_append, List.mem_map, List.mem_filter, decide_eq_true_eq, Option.mem_toList,
    Option.filter_eq_some_iff, Scenario.Opens]
  constructor
  · rintro ⟨st, (⟨link, hLink, hEq⟩ | ⟨rid, hId, hEq⟩) | ⟨literal, hLiteral, hEq⟩⟩
    · cases hEq
      exact .inl ⟨rfl, hLink⟩
    · cases hEq
      exact .inr (.inl ⟨rfl, hId⟩)
    · cases hEq
      exact .inr (.inr ⟨rfl, hLiteral⟩)
  · rintro (⟨rfl, hLink⟩ | ⟨rfl, hId⟩ | ⟨rfl, hLiteral⟩)
    · exact ⟨_, .inl (.inl ⟨value, hLink, rfl⟩)⟩
    · exact ⟨_, .inl (.inr ⟨value, hId, rfl⟩)⟩
    · exact ⟨_, .inr ⟨value, hLiteral, rfl⟩⟩

theorem pairs_scenario {scenario : Scenario} {ref : Reference} {st : StepRef}
    (h : (ref, st) ∈ stepPairs scenario ++ scenarioPairs scenario) : st.scenario = scenario.name := by
  obtain h | h := List.mem_append.mp h
  · obtain ⟨⟨step, i⟩, -, hPair⟩ := List.mem_flatMap.mp h
    obtain hPair | hPair := List.mem_append.mp hPair <;> obtain ⟨_, -, hEq⟩ := List.mem_map.mp hPair <;> cases hEq <;> rfl
  · obtain h | h := List.mem_append.mp h
    · obtain h | h := List.mem_append.mp h <;> obtain ⟨_, -, hEq⟩ := List.mem_map.mp h <;> cases hEq <;> rfl
    · obtain ⟨_, -, hEq⟩ := List.mem_map.mp h
      cases hEq
      rfl

theorem not_indexes_screen {scenario : Scenario} {value : String} : ¬scenario.Indexes ⟨.screen, value⟩ := by
  rintro ⟨⟨place, hRefers, -⟩, -⟩
  cases hRefers with
  | step _ hRefers => cases hRefers
  | expect _ hRefers => cases hRefers
  | interrupt _ hRefers => cases hRefers

/-- A scenario brings in the references at the places the walks visit, and the screen it opens. -/
theorem scenario_brings {scenario : Scenario} {ref : Reference} :
    (∃ st, (ref, st) ∈ stepPairs scenario ++ scenarioPairs scenario) ↔ scenario.Indexes ref ∨ scenario.Opens ref := by
  simp only [List.mem_append, exists_or, stepPairs_iff, scenarioPairs_iff]
  obtain ⟨kind, value⟩ := ref
  cases kind with
  | screen => simp [not_indexes_screen, Scenario.Opens]
  | id =>
    rw [← scenarioMatchableIds_iff]
    have hSteps : value ∈ scenario.steps.flatMap stepMatchableIds → value ∈ scenarioMatchableIds scenario :=
      fun hMem => mem_scenarioMatchableIds.mpr (.inl (List.mem_flatMap.mp hMem))
    simp only [Scenario.Opens, reduceCtorEq, true_and, false_and, or_false, false_or]
    tauto
  | endpoint =>
    rw [← requestLiterals_iff]
    have hSteps : (value ∈ scenario.steps.flatMap fun st => requestLiterals (stepRequests st)) →
        value ∈ requestLiterals (referencedRequests scenario) := by
      intro hMem
      obtain ⟨st, hStep, hLiteral⟩ := List.mem_flatMap.mp hMem
      obtain ⟨⟨request, hRequest, hLiteral⟩, hNonempty⟩ := mem_requestLiterals.mp hLiteral
      exact mem_requestLiterals.mpr
        ⟨⟨request, List.mem_append_left _ (List.mem_flatMap.mpr ⟨st, hStep, hRequest⟩), hLiteral⟩, hNonempty⟩
    simp only [Scenario.Opens, reduceCtorEq, true_and, false_and, or_false, false_or]
    tauto

theorem mem_reverseIndex {scenarios : List Scenario} {ref : Reference} {st : StepRef} :
    Holds (reverseIndex scenarios) ref st ↔
      ∃ scenario ∈ scenarios, (ref, st) ∈ stepPairs scenario ++ scenarioPairs scenario := by
  have hSorted : Holds (reverseIndex scenarios) ref st ↔
      Holds (ofPairs (scenarios.flatMap fun scenario => stepPairs scenario ++ scenarioPairs scenario)) ref st := by
    constructor
    · rintro ⟨steps, hMem, hStep⟩
      obtain ⟨⟨_, unsorted⟩, hRow, hEq⟩ := List.mem_map.mp hMem
      cases hEq
      exact ⟨unsorted, hRow, mem_sortedBy.mp hStep⟩
    · rintro ⟨steps, hMem, hStep⟩
      exact ⟨_, List.mem_map.mpr ⟨_, hMem, rfl⟩, mem_sortedBy.mpr hStep⟩
  rw [hSorted, holds_ofPairs, List.mem_flatMap]

/-- What the suite is searched for. -/
def Searched (suite : List Scenario) (ref : Reference) : Prop := ∃ scenario ∈ suite, scenario.Indexes ref ∨ scenario.Opens ref

theorem keys_reverseIndex {suite : List Scenario} {ref : Reference} :
    (∃ steps, (ref, steps) ∈ reverseIndex suite) ↔ Searched suite ref := by
  have hKeys : (∃ steps, (ref, steps) ∈ reverseIndex suite) ↔ ∃ steps,
      (ref, steps) ∈ ofPairs (suite.flatMap fun scenario => stepPairs scenario ++ scenarioPairs scenario) := by
    constructor
    · rintro ⟨steps, hMem⟩
      obtain ⟨⟨_, unsorted⟩, hRow, hEq⟩ := List.mem_map.mp hMem
      cases hEq
      exact ⟨unsorted, hRow⟩
    · rintro ⟨steps, hMem⟩
      exact ⟨_, List.mem_map.mpr ⟨_, hMem, rfl⟩⟩
  rw [hKeys, mem_keys_ofPairs]
  simp only [Searched, ← scenario_brings, List.mem_flatMap]
  constructor
  · rintro ⟨st, scenario, hMem, hPair⟩
    exact ⟨scenario, hMem, st, hPair⟩
  · rintro ⟨scenario, hMem, st, hPair⟩
    exact ⟨st, scenario, hMem, hPair⟩

/-! ## What a change affects -/

theorem mem_touching {value : String} {changed : List ChangedFile} {path : Text} :
    path ∈ touching value changed ↔ ∃ file ∈ changed, file.path = path ∧ ∃ line ∈ file.lines, Carries value line := by
  simp only [touching, List.mem_map, List.mem_filter, List.any_eq_true, decide_eq_true_eq]
  constructor
  · rintro ⟨file, ⟨hFile, hLine⟩, hPath⟩
    exact ⟨file, hFile, hPath, hLine⟩
  · rintro ⟨file, hFile, hPath, hLine⟩
    exact ⟨file, ⟨hFile, hLine⟩, hPath⟩

theorem touching_ne_nil {value : String} {changed : List ChangedFile} :
    touching value changed ≠ [] ↔ ∃ file ∈ changed, ∃ line ∈ file.lines, Carries value line := by
  constructor
  · intro h
    obtain ⟨path, hMem⟩ := List.exists_mem_of_ne_nil _ h
    obtain ⟨file, hFile, -, hLine⟩ := mem_touching.mp hMem
    exact ⟨file, hFile, hLine⟩
  · rintro ⟨file, hFile, hLine⟩
    exact List.ne_nil_of_mem (mem_touching.mpr ⟨file, hFile, rfl, hLine⟩)

theorem mem_hits {index : ReverseIndex} {changed : List ChangedFile} {hit : Hit} :
    hit ∈ hits index changed ↔ (hit.reference, hit.steps) ∈ index ∧ hit.files = touching hit.reference.value changed ∧
      hit.files ≠ [] := by
  obtain ⟨ref, steps, files⟩ := hit
  simp only [hits, List.mem_filter, List.mem_map, decide_eq_true_eq]
  constructor
  · rintro ⟨⟨⟨ref, steps⟩, hMem, hEq⟩, hFiles⟩
    cases hEq
    exact ⟨hMem, rfl, hFiles⟩
  · rintro ⟨hMem, rfl, hFiles⟩
    exact ⟨⟨(ref, steps), hMem, rfl⟩, hFiles⟩

/-- A step is affected by a reference that the index files it under, when a changed line carries the literal. -/
theorem mem_affected {index : ReverseIndex} {changed : List ChangedFile} {st : StepRef} {ref : Reference} :
    (∃ a ∈ (impact index changed).affected, a.step = st ∧ ref ∈ a.reasons) ↔
      Holds index ref st ∧ ∃ file ∈ changed, ∃ line ∈ file.lines, Carries ref.value line := by
  have hReasons : (∃ a ∈ (impact index changed).affected, a.step = st ∧ ref ∈ a.reasons) ↔
      Holds (ofPairs ((hits index changed).flatMap fun hit => hit.steps.map fun st => (st, hit.reference))) st ref := by
    constructor
    · rintro ⟨a, hMem, rfl, hRef⟩
      obtain ⟨⟨step, reasons⟩, hRow, hEq⟩ := List.mem_map.mp (mem_sortedBy.mp hMem)
      cases hEq
      exact ⟨reasons, hRow, mem_sortedBy.mp hRef⟩
    · rintro ⟨reasons, hRow, hRef⟩
      exact ⟨_, mem_sortedBy.mpr (List.mem_map.mpr ⟨_, hRow, rfl⟩), rfl, mem_sortedBy.mpr hRef⟩
  rw [hReasons, holds_ofPairs, List.mem_flatMap, ← touching_ne_nil]
  constructor
  · rintro ⟨hit, hHit, hPair⟩
    obtain ⟨hMem, hFiles, hNonempty⟩ := mem_hits.mp hHit
    obtain ⟨_, hStep, hEq⟩ := List.mem_map.mp hPair
    cases hEq
    exact ⟨⟨hit.steps, hMem, hStep⟩, hFiles ▸ hNonempty⟩
  · rintro ⟨⟨steps, hMem, hStep⟩, hNonempty⟩
    exact ⟨⟨ref, steps, _⟩, mem_hits.mpr ⟨hMem, rfl, hNonempty⟩, List.mem_map.mpr ⟨st, hStep, rfl⟩⟩

/-- The report is incomplete when a changed file has no line that carries a literal of the index. -/
theorem complete_eq_false {index : ReverseIndex} {changed : List ChangedFile} :
    (impact index changed).complete = false ↔ ∃ file ∈ changed, (file.binary = true ∨ file.lines ≠ []) ∧
      ∀ ref steps, (ref, steps) ∈ index → file.path ∉ touching ref.value changed := by
  have hAttributed (path : Text) : path ∉ (hits index changed).flatMap Hit.files ↔
      ∀ ref steps, (ref, steps) ∈ index → path ∉ touching ref.value changed := by
    rw [List.mem_flatMap]
    constructor
    · intro h ref steps hMem hPath
      exact h ⟨⟨ref, steps, _⟩, mem_hits.mpr ⟨hMem, rfl, List.ne_nil_of_mem hPath⟩, hPath⟩
    · rintro h ⟨hit, hHit, hPath⟩
      obtain ⟨hMem, hFiles, -⟩ := mem_hits.mp hHit
      exact h _ _ hMem (hFiles ▸ hPath)
  have hComplete : (impact index changed).complete = false ↔ ∃ path, path ∈ (impact index changed).unattributable := by
    change (impact index changed).unattributable.isEmpty = false ↔ _
    rw [List.isEmpty_eq_false_iff_exists_mem]
  rw [hComplete]
  simp only [impact, mem_sortedBy, List.mem_dedup, List.mem_map, List.mem_filter, Bool.and_eq_true, Bool.or_eq_true,
    decide_eq_true_eq, hAttributed]
  constructor
  · rintro ⟨path, file, ⟨hFile, hPath, hLines⟩, rfl⟩
    exact ⟨file, hFile, hLines, hPath⟩
  · rintro ⟨file, hFile, hLines, hPath⟩
    exact ⟨_, file, ⟨hFile, hPath, hLines⟩, rfl⟩

/-! ## No silent skip -/

/-- Every literal that a scenario refers to and that a changed line carries brings in the scenario, or the report is
incomplete. -/
def NeverSkips (suite : List Scenario) (diff : Diff) : Prop :=
  ∀ scenario ∈ suite, ∀ place ref, scenario.Refers place ref →
    (∃ file ∈ diff, ∃ line ∈ file.changed, Carries ref.value line) →
      (∃ a ∈ (impact (reverseIndex suite) (parseDiff diff.text)).affected, a.step.scenario = scenario.name ∧ ref ∈ a.reasons) ∨
        (impact (reverseIndex suite) (parseDiff diff.text)).complete = false

/-- A scenario of the name indexes the reference, and a kept line carries it. -/
def BroughtIn (suite : List Scenario) (diff : Diff) (name : String) (ref : Reference) : Prop :=
  (∃ scenario ∈ suite, scenario.name = name ∧ scenario.Indexes ref) ∧ ∃ file ∈ diff, ∃ line ∈ kept file, Carries ref.value line

/-- A file is kept lines of, none of which, in any section read under its path, carries a literal the suite is searched
for. -/
def Unattributed (suite : List Scenario) (diff : Diff) : Prop :=
  ∃ file ∈ diff, kept file ≠ [] ∧ ∀ other ∈ diff, pathOf other = pathOf file → ∀ ref, Searched suite ref →
    ∀ line ∈ kept other, ¬Carries ref.value line

/-- Every reference on a changed line is indexed and kept, or a changed file is left over. -/
def Accounted (suite : List Scenario) (diff : Diff) : Prop :=
  ∀ scenario ∈ suite, ∀ place ref, scenario.Refers place ref →
    (∃ file ∈ diff, ∃ line ∈ file.changed, Carries ref.value line) →
      BroughtIn suite diff scenario.name ref ∨ Unattributed suite diff

theorem kept_ne_nil {file : Section} (h : kept file ≠ []) : ∃ path, pathOf file = some path := by
  apply Option.isSome_iff_exists.mp
  apply pathOf_isSome
  intro hNone
  rw [kept, hNone] at h
  exact h rfl

theorem mem_parseDiff {diff : Diff} (hTame : Tame diff) {changed : ChangedFile} :
    changed ∈ parseDiff diff.text ↔ ∃ file ∈ diff, pathOf file = some changed.path ∧ changed = ⟨changed.path, kept file, false⟩ := by
  rw [parseDiff_text hTame, List.mem_flatMap]
  simp only [changedFile, Option.mem_toList, Option.map_eq_some_iff]
  constructor
  · rintro ⟨file, hFile, path, hPath, rfl⟩
    exact ⟨file, hFile, hPath, rfl⟩
  · rintro ⟨file, hFile, hPath, hEq⟩
    exact ⟨file, hFile, changed.path, hPath, hEq.symm⟩

theorem carried_iff {diff : Diff} (hTame : Tame diff) {value : String} :
    (∃ file ∈ parseDiff diff.text, ∃ line ∈ file.lines, Carries value line) ↔
      ∃ file ∈ diff, ∃ line ∈ kept file, Carries value line := by
  constructor
  · rintro ⟨changed, hMem, line, hLine, hCarries⟩
    obtain ⟨file, hFile, -, hEq⟩ := (mem_parseDiff hTame).mp hMem
    rw [hEq] at hLine
    exact ⟨file, hFile, line, hLine, hCarries⟩
  · rintro ⟨file, hFile, line, hLine, hCarries⟩
    obtain ⟨path, hPath⟩ := kept_ne_nil (List.ne_nil_of_mem hLine)
    exact ⟨⟨path, kept file, false⟩, (mem_parseDiff hTame).mpr ⟨file, hFile, hPath, rfl⟩, line, hLine, hCarries⟩

theorem incomplete_iff {suite : List Scenario} {diff : Diff} (hTame : Tame diff) :
    (impact (reverseIndex suite) (parseDiff diff.text)).complete = false ↔ Unattributed suite diff := by
  rw [complete_eq_false]
  constructor
  · rintro ⟨changed, hMem, hLines, hNone⟩
    obtain ⟨file, hFile, hPath, hEq⟩ := (mem_parseDiff hTame).mp hMem
    rw [hEq] at hLines
    refine ⟨file, hFile, hLines.resolve_left Bool.false_ne_true, ?_⟩
    intro other hOther hSame ref hSearched line hLine hCarries
    obtain ⟨steps, hRow⟩ := keys_reverseIndex.mpr hSearched
    apply hNone ref steps hRow
    apply mem_touching.mpr
    exact ⟨⟨changed.path, kept other, false⟩, (mem_parseDiff hTame).mpr ⟨other, hOther, hSame.trans hPath, rfl⟩, rfl,
      line, hLine, hCarries⟩
  · rintro ⟨file, hFile, hKept, hNone⟩
    obtain ⟨path, hPath⟩ := kept_ne_nil hKept
    refine ⟨⟨path, kept file, false⟩, (mem_parseDiff hTame).mpr ⟨file, hFile, hPath, rfl⟩, .inr hKept, ?_⟩
    intro ref steps hRow hTouched
    obtain ⟨changed, hMem, hSame, line, hLine, hCarries⟩ := mem_touching.mp hTouched
    obtain ⟨other, hOther, hOtherPath, hEq⟩ := (mem_parseDiff hTame).mp hMem
    rw [hEq] at hLine
    obtain rfl : changed.path = path := hSame
    exact hNone other hOther (hOtherPath.trans hPath.symm) ref (keys_reverseIndex.mp ⟨steps, hRow⟩) line hLine hCarries

theorem not_screen {scenario : Scenario} {place : Place} {ref : Reference} (h : scenario.Refers place ref) :
    ref.kind ≠ .screen := by
  cases h with
  | step _ hRefers => cases hRefers <;> exact nofun
  | expect _ hRefers => cases hRefers <;> exact nofun
  | interrupt _ hRefers => cases hRefers <;> exact nofun

theorem affected_iff {suite : List Scenario} {diff : Diff} (hTame : Tame diff) {ref : Reference} (hKind : ref.kind ≠ .screen)
    {name : String} :
    (∃ a ∈ (impact (reverseIndex suite) (parseDiff diff.text)).affected, a.step.scenario = name ∧ ref ∈ a.reasons) ↔
      BroughtIn suite diff name ref := by
  have hSteps : (∃ a ∈ (impact (reverseIndex suite) (parseDiff diff.text)).affected, a.step.scenario = name ∧ ref ∈ a.reasons) ↔
      ∃ st : StepRef, st.scenario = name ∧
        ∃ a ∈ (impact (reverseIndex suite) (parseDiff diff.text)).affected, a.step = st ∧ ref ∈ a.reasons := by
    constructor
    · rintro ⟨a, hMem, hName, hRef⟩
      exact ⟨a.step, hName, a, hMem, rfl, hRef⟩
    · rintro ⟨_, hName, a, hMem, rfl, hRef⟩
      exact ⟨a, hMem, hName, hRef⟩
  rw [hSteps]
  simp only [mem_affected, mem_reverseIndex, carried_iff hTame]
  constructor
  · rintro ⟨st, hName, ⟨scenario, hMem, hPair⟩, hCarried⟩
    obtain hIndexes | hOpens := scenario_brings.mp ⟨st, hPair⟩
    · exact ⟨⟨scenario, hMem, (pairs_scenario hPair).symm.trans hName, hIndexes⟩, hCarried⟩
    · exact absurd hOpens.1 hKind
  · rintro ⟨⟨scenario, hMem, hName, hIndexes⟩, hCarried⟩
    obtain ⟨st, hPair⟩ := scenario_brings.mpr (.inl hIndexes)
    exact ⟨st, (pairs_scenario hPair).trans hName, ⟨scenario, hMem, hPair⟩, hCarried⟩

/-- Nothing is skipped silently exactly when every reference on a changed line is accounted for. -/
theorem neverSkips_iff (suite : List Scenario) (diff : Diff) (hTame : Tame diff) :
    NeverSkips suite diff ↔ Accounted suite diff := by
  constructor
  · intro h scenario hMem place ref hRefers hCarried
    rw [← affected_iff hTame (not_screen hRefers), ← incomplete_iff hTame]
    exact h scenario hMem place ref hRefers hCarried
  · intro h scenario hMem place ref hRefers hCarried
    rw [affected_iff hTame (not_screen hRefers), incomplete_iff hTame]
    exact h scenario hMem place ref hRefers hCarried

def tapById (rid : String) : Step := { action := .leaf (.tap { id := some (.one rid) }) }

/-- The button of the log-in screen is tapped in `setup` only. -/
def loggedIn : Scenario := { name := "logged in", setup := [tapById "login.button"], steps := [tapById "home.title"] }

def loginFile : Path := ⟨"app/Login.swift".toList, false, List.all_eq_true.mp rfl, by decide⟩

def lineOf (sign : Sign) (text : String) (h : '\n' ∉ text.toList) : HunkLine := { sign, text := text.toList, oneLine := h }

def loginChange (removed added : String) (hRemoved : '\n' ∉ removed.toList) (hAdded : '\n' ∉ added.toList) : Diff :=
  [{ old := loginFile, new := loginFile, present := by decide, extended := []
     hunks := [⟨⟨1, 1⟩, ⟨1, 1⟩, [], by decide, [lineOf .removed removed hRemoved, lineOf .added added hAdded]⟩] }]

theorem neverSkips_iff_renamed :
    NeverSkips [loggedIn] (loginChange "login.button" "home.title" (by decide) (by decide)) ↔
      Accounted [loggedIn] (loginChange "login.button" "home.title" (by decide) (by decide)) :=
  neverSkips_iff _ _ (by unfold Tame; decide +kernel)

theorem skipped {suite : List Scenario} {diff : Diff} {scenario : Scenario} {place : Place} {ref : Reference}
    (hMem : scenario ∈ suite) (hRefers : scenario.Refers place ref)
    (hCarried : ∃ file ∈ diff, ∃ line ∈ file.changed, Carries ref.value line)
    (hRun : (let report := impact (reverseIndex suite) (parseDiff diff.text)
      report.complete && report.affected.all fun a => ref ∉ a.reasons) = true) : ¬NeverSkips suite diff := by
  intro h
  obtain ⟨hComplete, hAffected⟩ := Bool.and_eq_true_iff.mp hRun
  obtain ⟨a, hMem, -, hRef⟩ | hIncomplete := h scenario hMem place ref hRefers hCarried
  · exact of_decide_eq_true (List.all_eq_true.mp hAffected a hMem) hRef
  · exact Bool.false_ne_true (hIncomplete.symm.trans hComplete)

/-- A reference of `setup` is skipped, and so is one of a step that stands after a form feed on its line. -/
theorem silent_skips :
    ¬NeverSkips [loggedIn] (loginChange "login.button" "home.title" (by decide) (by decide)) ∧
      ¬NeverSkips [{ loggedIn with setup := [], steps := [tapById "login.button", tapById "home.title"] }]
        (loginChange "home.title" "\x0clogin.button" (by decide) (by decide)) := by
  have hRefers (phase : Phase) (scenario : Scenario) (hMem : tapById "login.button" ∈ scenario.phase phase) :
      scenario.Refers (.step phase [] .tap) ⟨.id, "login.button"⟩ :=
    .step hMem (.id .here List.mem_cons_self (.own rfl List.mem_cons_self))
  constructor
  · apply skipped List.mem_cons_self (hRefers .setup _ List.mem_cons_self)
    · exact ⟨_, List.mem_cons_self, _, List.mem_cons_self, by decide +kernel⟩
    · decide +kernel
  · apply skipped List.mem_cons_self (hRefers .steps _ List.mem_cons_self)
    · exact ⟨_, List.mem_cons_self, _, List.mem_cons_of_mem _ List.mem_cons_self, by decide +kernel⟩
    · decide +kernel

end Bajutsu.Analysis
