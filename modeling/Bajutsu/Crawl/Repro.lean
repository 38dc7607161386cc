import Bajutsu.Crawl.Action
import Bajutsu.Drivers.Selector
import Bajutsu.Evidence.RedactionLeak
import Bajutsu.Evidence.RedactionUnion
import Bajutsu.Evidence.ScreenMapRedaction

/-!
# Scenarios from recorded actions

A recorded action list becomes a runnable scenario, or none at all. A value that the screen map masks by default is
replaced by a dummy that only the field's name and the secure flag decide, and every other value is typed as the
redactor writes it, which is how the screen map shows it.
-/

namespace Bajutsu.Crawl

open PyValue Evidence Drivers

/-- One emitted step. -/
inductive Step where
  | tap (sel : Selector)
  | type (text : String) (into : Selector)

structure Scenario where
  name : String
  steps : List Step

def byId (id : String) : Selector := { id := some (.one id) }

/-- The identifier if there is one, otherwise the label with its index. -/
def selector (a : Action) : Option Selector :=
  if a.target ≠ "" then some (byId a.target)
  else a.label.map fun label => { label := some label, index := a.index }

section Emitting

variable (rt : Evidence.Runtime) (lo : Lowering) (self : EvidenceRedactor)

def masks (a : Action) : Bool := self.masksEntered rt (some a.target) a.label a.secure

def text (a : Action) (hint value : String) (masked : Bool) : String :=
  if masked then valueForField lo.lower hint a.secure else self.redactString rt value

def fillStep (a : Action) (field : String × String) : Step :=
  .type (text rt lo self a field.1 field.2 (masks rt self a || self.masksEntered rt (some field.1) none false))
    (byId field.1)

/-- `_steps`: nothing for an action that has no faithful scenario form. -/
def steps (a : Action) : Option (List Step) :=
  match a.kind with
  | .tap => (selector a).map fun sel => [.tap sel]
  | .type =>
    (selector a).map fun sel =>
      [.type (text rt lo self a (a.target ++ " " ++ a.label.getD "") (a.value.getD "") (masks rt self a)) sel]
  | .fill =>
    if a.fields = [] ∨ a.fields.any (fun field => field.1 = "") then none
    else some (a.fields.map (fillStep rt lo self a))
  | _ => none

def scenarioFromActions (actions : List Action) (name : String) : Option Scenario :=
  match actions.mapM (steps rt lo self) with
  | none => none
  | some produced => if produced.flatten.isEmpty then none else some ⟨name, produced.flatten⟩

end Emitting

/-! ## What the screen map shows of an action -/

section Shown

variable (rt : Evidence.Runtime) (self : EvidenceRedactor)

/-- The action as the redacted map has it. -/
def shownAction (a : Action) : Val := self.redactAction rt (.dict (actionToDict a))

def shownActions (actions : List Action) : Val := .list (actions.map (shownAction rt self))

def shownEntry (key : String) (a : Action) : Option Val :=
  match shownAction rt self a with
  | .dict out => PyValue.get out key
  | _ => none

theorem redactScreenMap_dict (m : Recorded) :
    self.redactScreenMap rt (screenmapDict m) =
      [("crashes", .list (m.crashes.map fun c =>
          .dict [("path", .list (c.path.map .str)), ("actions", shownActions rt self c.actions)])),
        ("paths", .dict ((m.paths.insertionSort fun a b => a.1 ≤ b.1).map fun item =>
          (item.1, shownActions rt self item.2))),
        ("pruned", .list (m.pruned.map fun p =>
          .dict [("src", .str p.src), ("action", .str p.action), ("key", .str p.key), ("owner", .str p.owner),
            ("path", shownActions rt self p.path)]))] := by
  have hActions (actions : List Action) :
      self.redactActions rt (actionsDict actions) = shownActions rt self actions := by
    rw [actionsDict, EvidenceRedactor.redactActions, List.map_map]
    rfl
  have hCrash (c : Crash) : self.redactActionList rt "actions" c.dict =
      .dict [("path", .list (c.path.map .str)), ("actions", shownActions rt self c.actions)] := by
    rw [← hActions]
    rfl
  have hPruned (p : Pruned) : self.redactActionList rt "path" p.dict =
      .dict [("src", .str p.src), ("action", .str p.action), ("key", .str p.key), ("owner", .str p.owner),
        ("path", shownActions rt self p.path)] := by
    rw [← hActions]
    rfl
  simp [EvidenceRedactor.redactScreenMap, screenmapDict, EvidenceRedactor.redactHolders,
    EvidenceRedactor.redactPaths, PyValue.get, PyValue.set, List.map_map, Function.comp_def, hActions, hCrash, hPruned]

variable {rt self}

theorem masksEntered_target (a : Action) :
    self.masksEntered rt (EvidenceRedactor.asStr (PyValue.get (actionToDict a) "target"))
      (EvidenceRedactor.asStr (PyValue.get (actionToDict a) "label"))
      (((PyValue.get (actionToDict a) "secure").map EvidenceRedactor.truthy).getD false) = masks rt self a := by
  have hLabel : EvidenceRedactor.asStr (a.label.map Val.str) = a.label := by
    cases a.label <;> rfl
  have hSecure : ((if a.secure then some (Val.bool true) else none).map EvidenceRedactor.truthy).getD false =
      a.secure := by
    cases a.secure <;> rfl
  rw [get_target, get_label, get_secure, hLabel, hSecure, masks]
  split
  · rename_i hTarget
    rw [hTarget]
    rfl
  · rfl

theorem get_redactActionFields {k : String} (hk : k ≠ "fields") (masked : Bool) (out : List (String × Val)) :
    PyValue.get (self.redactActionFields rt masked out) k = PyValue.get out k := by
  rw [EvidenceRedactor.redactActionFields]
  split
  · exact get_set_ne out _ hk
  · rfl

theorem get_redactActionValue {k : String} (hk : k ≠ "value") (masked : Bool) (out : List (String × Val)) :
    PyValue.get (self.redactActionValue rt masked out) k = PyValue.get out k := by
  rw [EvidenceRedactor.redactActionValue]
  split
  · exact get_set_ne out _ hk
  · rfl

theorem shownAction_eq (a : Action) :
    shownAction rt self a =
      .dict (self.redactActionFields rt (masks rt self a)
        (self.redactActionValue rt (masks rt self a) (actionToDict a))) := by
  rw [shownAction, EvidenceRedactor.redactAction, masksEntered_target]

theorem shown_value (a : Action) :
    shownEntry rt self "value" a = a.value.map fun v => .str (self.enteredText rt (masks rt self a) v) := by
  rw [shownEntry, shownAction_eq]
  dsimp only
  rw [get_redactActionFields (by decide), EvidenceRedactor.redactActionValue, get_value]
  cases hValue : a.value with
  | none =>
    dsimp only [Option.map_none]
    rw [get_value, hValue, Option.map_none]
  | some v => rw [Option.map_some, Option.map_some, get_set_self]

/-- The text that the map shows for one field of a fill. -/
def fieldText (rt : Evidence.Runtime) (self : EvidenceRedactor) (a : Action) (field : String × String) : String :=
  self.enteredText rt (masks rt self a || self.masksEntered rt (some field.1) none false) field.2

theorem shown_fields {a : Action} (hFields : a.fields ≠ []) :
    shownEntry rt self "fields" a =
      some (.list (a.fields.map fun field => pairDict (field.1, fieldText rt self a field))) := by
  rw [shownEntry, shownAction_eq]
  dsimp only
  rw [EvidenceRedactor.redactActionFields, get_redactActionValue (by decide), get_fields, if_neg hFields]
  dsimp only
  rw [get_set_self, List.map_map]
  rfl

/-! ## A value and its step -/

theorem redactString_empty : self.redactString rt "" = "" := by
  have hKey (patterns : List (Regex.Keyed × List Char)) : Redactor.keyPass rt patterns [] = [] := by
    induction patterns with
    | nil => rfl
    | cons pattern patterns ih => exact ih
  have hTerms (terms : List (List Char)) : Redactor.replaceTerms terms [] = [] := by
    induction terms with
    | nil => rfl
    | cons term terms ih => exact ih
  have hBasic : self.toRedactor.redactBasicAuth rt [] = [] := rfl
  have hText : self.toRedactor.redactText rt [] = [] := by
    rw [Redactor.redactText, Redactor.redactDerived, Redactor.redactValues, hKey, hBasic, ite_self, hTerms, hTerms]
  exact congrArg String.ofList hText

/-- Whatever is recorded as the action's value, the map shows the placeholder. -/
def ValueMasked (rt : Evidence.Runtime) (self : EvidenceRedactor) (a : Action) : Prop :=
  ∀ v, shownEntry rt self "value" { a with value := some v } = some (.str placeholder)

/-- Whatever is recorded in the field behind these, the map shows the placeholder. -/
def FieldMasked (rt : Evidence.Runtime) (self : EvidenceRedactor) (a : Action) (front : List (String × String)) (fid : String)
    (back : List (String × String)) : Prop :=
  ∀ v, ∃ shown, shownEntry rt self "fields" { a with fields := front ++ (fid, v) :: back } = some (.list shown) ∧
    shown[front.length]? = some (pairDict (fid, placeholder))

theorem valueMasked_iff (a : Action) : ValueMasked rt self a ↔ masks rt self a = true := by
  constructor
  · intro h
    have hEmpty := h ""
    rw [shown_value, Option.map_some, EvidenceRedactor.enteredText] at hEmpty
    split at hEmpty
    · assumption
    · rw [redactString_empty] at hEmpty
      exact absurd (Val.str.inj (Option.some.inj hEmpty)) (by decide)
  · intro h v
    rw [shown_value, Option.map_some, EvidenceRedactor.enteredText, if_pos]
    exact h

theorem fieldMasked_iff (a : Action) (front : List (String × String)) (fid : String) (back : List (String × String)) :
    FieldMasked rt self a front fid back ↔
      (masks rt self a || self.masksEntered rt (some fid) none false) = true := by
  have hShown (v : String) : ∃ shown, shownEntry rt self "fields" { a with fields := front ++ (fid, v) :: back } =
      some (.list shown) ∧ shown[front.length]? = some (pairDict (fid, fieldText rt self a (fid, v))) := by
    refine ⟨_, shown_fields (by simp), ?_⟩
    rw [List.getElem?_map, List.getElem?_append_right (Nat.le_refl _), Nat.sub_self]
    rfl
  constructor
  · intro h
    obtain ⟨shown, hEntry, hPlace⟩ := h ""
    obtain ⟨shown', hEntry', hPlace'⟩ := hShown ""
    rw [hEntry] at hEntry'
    cases hEntry'
    rw [hPlace, fieldText, EvidenceRedactor.enteredText] at hPlace'
    split at hPlace'
    · assumption
    · rw [redactString_empty] at hPlace'
      exact absurd (Option.some.inj hPlace') (by simp [pairDict, placeholder])
  · intro h v
    obtain ⟨shown, hEntry, hPlace⟩ := hShown v
    rw [fieldText, EvidenceRedactor.enteredText, if_pos h] at hPlace
    exact ⟨shown, hEntry, hPlace⟩

variable {lo : Lowering}

theorem steps_value {a : Action} (h : masks rt self a = true) (v w : String) :
    steps rt lo self { a with value := some v } = steps rt lo self { a with value := some w } := by
  obtain ⟨kind, target, label, index, value, fields, point, secure⟩ := a
  have hMasks (value : String) :
      masks rt self ⟨kind, target, label, index, some value, fields, point, secure⟩ = true := h
  cases kind with
  | type =>
    rw [steps, steps, text, text, hMasks, hMasks]
    rfl
  | tap => rfl
  | fill => rfl
  | tapPoint => rfl
  | other name => rfl

theorem steps_field {a : Action} {front : List (String × String)} {fid : String} {back : List (String × String)}
    (h : (masks rt self a || self.masksEntered rt (some fid) none false) = true) (v w : String) :
    steps rt lo self { a with fields := front ++ (fid, v) :: back } =
      steps rt lo self { a with fields := front ++ (fid, w) :: back } := by
  have hStep (value : String) (fields : List (String × String)) :
      fillStep rt lo self { a with fields := fields } (fid, value) =
        .type (valueForField lo.lower fid a.secure) (byId fid) := by
    rw [fillStep, text, if_pos]
    exact h
  obtain ⟨kind, target, label, index, value, fields, point, secure⟩ := a
  cases kind with
  | fill =>
    rw [steps, steps]
    dsimp only at hStep ⊢
    rw [List.map_append, List.map_append, List.map_cons, List.map_cons, hStep, hStep]
    have hNil (value : String) : ¬front ++ (fid, value) :: back = [] := by simp
    simp only [List.any_append, List.any_cons, hNil]
    rfl
  | type => rfl
  | tap => rfl
  | tapPoint => rfl
  | other name => rfl

theorem steps_mem {before after : List Action} {a : Action} {name : String} {scenario : Scenario}
    (h : scenarioFromActions rt lo self (before ++ a :: after) name = some scenario) :
    ∃ earlier mine later, before.mapM (steps rt lo self) = some earlier ∧ steps rt lo self a = some mine ∧
      scenario.steps = earlier.flatten ++ mine ++ later := by
  rw [scenarioFromActions] at h
  split at h
  · cases h
  · rename_i produced hProduced
    split at h
    · cases h
    · cases h
      rw [List.mapM_append, List.mapM_cons] at hProduced
      obtain ⟨earlier, hEarlier, hRest⟩ := Option.bind_eq_some_iff.mp hProduced
      obtain ⟨tail, hTail, hAll⟩ := Option.bind_eq_some_iff.mp hRest
      obtain ⟨mine, hMine, hLater⟩ := Option.bind_eq_some_iff.mp hTail
      obtain ⟨later, -, hSame⟩ := Option.bind_eq_some_iff.mp hLater
      cases hSame
      cases hAll
      exact ⟨earlier, mine, later.flatten, hEarlier, hMine, by simp⟩

/-- Where no default masks what was entered, the step types what the map shows. -/
def TypesShown (rt : Evidence.Runtime) (self : EvidenceRedactor) (a : Action) (mine : List Step) : Prop :=
  (a.kind = .type → ¬ValueMasked rt self a → ∀ v, a.value = some v →
    shownEntry rt self "value" a = some (.str (self.redactString rt v)) ∧
      ∃ sel, mine = [.type (self.redactString rt v) sel]) ∧
  (a.kind = .fill → ∀ front fid v back, a.fields = front ++ (fid, v) :: back → ¬FieldMasked rt self a front fid back →
    (∃ shown, shownEntry rt self "fields" a = some (.list shown) ∧
      shown[front.length]? = some (pairDict (fid, self.redactString rt v))) ∧
      mine[front.length]? = some (.type (self.redactString rt v) (byId fid)))

theorem steps_shown {a : Action} {mine : List Step} (h : steps rt lo self a = some mine) :
    TypesShown rt self a mine := by
  constructor
  · intro hKind hMasked v hValue
    rw [valueMasked_iff] at hMasked
    constructor
    · rw [shown_value, hValue, Option.map_some, EvidenceRedactor.enteredText, if_neg hMasked]
    · rw [steps, hKind] at h
      obtain ⟨sel, -, hMine⟩ := Option.map_eq_some_iff.mp h
      rw [text, if_neg hMasked, hValue] at hMine
      exact ⟨sel, hMine.symm⟩
  · intro hKind front fid v back hFields hMasked
    rw [fieldMasked_iff] at hMasked
    constructor
    · refine ⟨_, shown_fields (by rw [hFields]; simp), ?_⟩
      rw [hFields, List.getElem?_map, List.getElem?_append_right (Nat.le_refl _), Nat.sub_self, List.getElem?_cons_zero,
        Option.map_some, fieldText, EvidenceRedactor.enteredText, if_neg hMasked]
    · rw [steps, hKind] at h
      dsimp only at h
      split at h
      · cases h
      · cases h
        rw [List.getElem?_map, hFields, List.getElem?_append_right (Nat.le_refl _), Nat.sub_self,
          List.getElem?_cons_zero, Option.map_some, fillStep, text, if_neg hMasked]

end Shown

/-- A value that the map masks by default leaves the emitted scenario the same, whatever it is; every other value is
typed as the redactor writes it, which is what the map shows. -/
theorem scenario_types_what_the_map_shows (rt : Evidence.Runtime) (lo : Lowering) (self : EvidenceRedactor)
    (before after : List Action) (a : Action) (name : String) :
    (ValueMasked rt self a → ∀ v w,
      scenarioFromActions rt lo self (before ++ { a with value := some v } :: after) name =
        scenarioFromActions rt lo self (before ++ { a with value := some w } :: after) name) ∧
    (∀ front fid back, FieldMasked rt self a front fid back → ∀ v w,
      scenarioFromActions rt lo self (before ++ { a with fields := front ++ (fid, v) :: back } :: after) name =
        scenarioFromActions rt lo self (before ++ { a with fields := front ++ (fid, w) :: back } :: after) name) ∧
    ∀ scenario, scenarioFromActions rt lo self (before ++ a :: after) name = some scenario →
      ∃ earlier mine later, before.mapM (steps rt lo self) = some earlier ∧
        scenario.steps = earlier.flatten ++ mine ++ later ∧ TypesShown rt self a mine := by
  refine ⟨?_, ?_, ?_⟩
  · intro hMasked v w
    rw [valueMasked_iff] at hMasked
    rw [scenarioFromActions, scenarioFromActions, List.mapM_append, List.mapM_append, List.mapM_cons, List.mapM_cons,
      steps_value hMasked v w]
  · intro front fid back hMasked v w
    rw [fieldMasked_iff] at hMasked
    rw [scenarioFromActions, scenarioFromActions, List.mapM_append, List.mapM_append, List.mapM_cons, List.mapM_cons,
      steps_field hMasked v w]
  · intro scenario hScenario
    obtain ⟨earlier, mine, later, hEarlier, hMine, hSteps⟩ := steps_mem hScenario
    exact ⟨earlier, mine, later, hEarlier, hSteps, steps_shown hMine⟩

/-! ## A password, and a secret that is no credential -/

def passwordAction : Action := { kind := .type, target := "password", value := some "hunter2" }

def nameAction : Action := { kind := .type, target := "name", value := some "hunter2" }

def secretRedactor : EvidenceRedactor := .make EvidenceRedactor.asciiLowering {} ["hunter2".toList]

theorem scenario_types_what_the_map_shows_password :
    scenarioFromActions asciiRuntime EvidenceRedactor.asciiLowering secretRedactor
        ([] ++ { passwordAction with value := some "hunter2" } :: []) "flow" =
      scenarioFromActions asciiRuntime EvidenceRedactor.asciiLowering secretRedactor
        ([] ++ { passwordAction with value := some "letmein" } :: []) "flow" := by
  apply (scenario_types_what_the_map_shows asciiRuntime EvidenceRedactor.asciiLowering secretRedactor [] []
    passwordAction "flow").1
  exact (valueMasked_iff passwordAction).mpr (by decide +kernel)

/-- The value of a field that no default masks is a secret, so the map shows the placeholder for it alone. -/
theorem secret_value_shown_masked :
    ¬∀ (rt : Evidence.Runtime) (lo : Lowering) (self : EvidenceRedactor) (before after : List Action) (a : Action)
      (name v : String), shownEntry rt self "value" { a with value := some v } = some (.str placeholder) →
      ∀ w, scenarioFromActions rt lo self (before ++ { a with value := some v } :: after) name =
        scenarioFromActions rt lo self (before ++ { a with value := some w } :: after) name := by
  intro hAll
  have hNone : ¬masks asciiRuntime secretRedactor nameAction = true := by decide +kernel
  have hSecret : secretRedactor.redactString asciiRuntime "hunter2" = placeholder := by decide +kernel
  have hShown : shownEntry asciiRuntime secretRedactor "value" nameAction = some (.str placeholder) := by
    rw [shown_value, show nameAction.value = some "hunter2" from rfl, Option.map_some, EvidenceRedactor.enteredText,
      if_neg hNone, hSecret]
  have hSame := hAll asciiRuntime EvidenceRedactor.asciiLowering secretRedactor [] [] nameAction "flow" "hunter2" hShown
    "alice"
  have hSteps (value : String) : steps asciiRuntime EvidenceRedactor.asciiLowering secretRedactor
      { nameAction with value := some value } =
        some [.type (secretRedactor.redactString asciiRuntime value) (byId "name")] := by
    have hPlain : ¬masks asciiRuntime secretRedactor { nameAction with value := some value } = true := hNone
    rw [steps, text, if_neg hPlain]
    rfl
  have hTexts : secretRedactor.redactString asciiRuntime "hunter2" ≠ secretRedactor.redactString asciiRuntime "alice" := by
    decide +kernel
  apply hTexts
  simp only [scenarioFromActions, List.nil_append, List.mapM_cons, List.mapM_nil, hSteps] at hSame
  have hStep := List.singleton_injective (Scenario.mk.inj (Option.some.inj hSame)).2
  exact (Step.type.inj hStep).1

end Bajutsu.Crawl
