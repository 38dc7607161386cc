import Bajutsu.Orchestrator.EvalTaint

/-!
# Secret taint is sound

Over the `eval` steps of a run: what holds a secret is marked and registered, and what is not marked has the same value
whatever the secrets are, up to the element counts and to which steps fail.
-/

namespace Bajutsu.Orchestrator.EvalStep

open PyValue Scenarios

variable {py : Python}

/-! ## Secret tokens -/

theorem toList_varKey (name : String) : (varKey name).toList = "vars.".toList ++ name.toList := by
  rw [varKey, String.toList_append]

theorem drop_vars (name : List Char) : ("vars.".toList ++ name).drop 5 = name := rfl

theorem isSecret_varKey (secretVars : List String) (name : String) :
    isSecret secretVars (varKey name) = true ↔ name ∈ secretVars := by
  have hSecrets : "secrets.".toList.isPrefixOf (varKey name).toList = false := by
    rw [toList_varKey]
    rfl
  have hVars : "vars.".toList.isPrefixOf (varKey name).toList = true := by
    rw [toList_varKey, List.isPrefixOf_iff_prefix]
    exact List.prefix_append _ _
  have hName : String.ofList ((varKey name).toList.drop 5) = name := by
    rw [toList_varKey, drop_vars, String.ofList_toList]
  rw [isSecret, hSecrets, hVars, hName]
  simp

theorem isSecret_cases {secretVars : List String} {token : String} (h : isSecret secretVars token = true) :
    (∀ marked, isSecret marked token = true) ∨ ∃ name ∈ secretVars, token = varKey name := by
  rw [isSecret, Bool.or_eq_true, Bool.and_eq_true] at h
  obtain hPrefix | ⟨hPrefix, hMem⟩ := h
  · exact .inl fun marked => by rw [isSecret, hPrefix, Bool.true_or]
  · refine .inr ⟨_, by simpa using hMem, ?_⟩
    obtain ⟨name, hName⟩ := List.isPrefixOf_iff_prefix.mp hPrefix
    apply String.toList_inj.mp
    rw [toList_varKey, ← hName, drop_vars]
    exact congrArg _ String.toList_ofList.symm

/-- A token a step's result can carry: one of `from` when there is no `count`, or of an operation with no `count` at it
or after it. -/
def Carries (spec : Eval) (token : String) : Prop :=
  (token ∈ tokensOf spec.from_ ∧ ∀ op ∈ spec.ops, rawName op ≠ "count") ∨
    ∃ before op after, spec.ops = before ++ op :: after ∧ token ∈ findTokens op ∧
      ∀ later ∈ op :: after, rawName later ≠ "count"

theorem mem_inputTokens {spec : Eval} {token : String} (h : Carries spec token) : token ∈ inputTokens spec := by
  rw [inputTokens]
  cases hAfter : afterCount spec.ops with
  | none =>
    obtain ⟨hFrom, -⟩ | ⟨before, op, after, hOps, hOp, -⟩ := h
    · exact List.mem_append_left _ hFrom
    · apply List.mem_append_right
      exact mem_findTokensAll.mpr ⟨op, by rw [hOps]; simp, hOp⟩
  | some rest =>
    obtain ⟨front, count, hSplit, hName, -⟩ := afterCount_eq_some hAfter
    obtain ⟨-, hNone⟩ | ⟨before, op, after, hOps, hOp, hLater⟩ := h
    · exact absurd hName (hNone count (by rw [hSplit]; simp))
    · refine mem_findTokensAll.mpr ⟨op, ?_, hOp⟩
      -- the operation is after the last `count`, since no `count` is at it or after it
      rw [hSplit] at hOps
      rcases List.append_eq_append_iff.mp hOps with ⟨mid, -, hMid⟩ | ⟨mid, -, hMid⟩
      · cases mid with
        | nil =>
          obtain ⟨rfl, -⟩ := List.cons.inj hMid
          exact absurd hName (hLater count List.mem_cons_self)
        | cons c mid =>
          obtain ⟨-, rfl⟩ := List.cons.inj hMid
          simp
      · exact absurd hName (hLater count (by rw [hMid]; simp))

theorem derivesFromSecret_of_carries {spec : Eval} {token : String} {secretVars : List String}
    (hCarries : Carries spec token) (hSecret : isSecret secretVars token = true) :
    derivesFromSecret spec secretVars = true :=
  List.any_eq_true.mpr ⟨token, mem_inputTokens hCarries, hSecret⟩

/-! ## Writing the variables -/

theorem update_cons (b : List (String × String)) (item : String × String) (items : List (String × String)) :
    update b (item :: items) = update (PyValue.set b item.1 item.2) items := rfl

theorem get_update_of_not_mem {b items : List (String × String)} {key : String} (h : key ∉ items.map Prod.fst) :
    get (update b items) key = get b key := by
  induction items generalizing b with
  | nil => rfl
  | cons item items ih =>
    rw [List.map_cons, List.mem_cons, not_or] at h
    rw [update_cons, ih h.2, get_set_ne _ _ h.1]

theorem get_update_of_mem {items : List (String × String)} {key : String} (h : key ∈ items.map Prod.fst) :
    ∃ value, ∀ b, get (update b items) key = some value := by
  induction items with
  | nil => cases h
  | cons item items ih =>
    by_cases hRest : key ∈ items.map Prod.fst
    · obtain ⟨value, hValue⟩ := ih hRest
      exact ⟨value, fun b => by rw [update_cons, hValue]⟩
    · obtain rfl : key = item.1 := by simpa [hRest] using h
      exact ⟨item.2, fun b => by rw [update_cons, get_update_of_not_mem hRest, get_set_self]⟩

theorem keys_evaluate {spec : Eval} {bindings items : List (String × String)}
    (h : evaluate py spec bindings = .ok items) : items.map Prod.fst = spec.into.names.map varKey := by
  obtain ⟨_, -, h⟩ := bind_eq_ok h
  obtain ⟨_, -, h⟩ := bind_eq_ok h
  obtain ⟨result, -, h⟩ := bind_eq_ok h
  cases hInto : spec.into with
  | var name =>
    rw [hInto] at h
    cases h
    rfl
  | vars names named =>
    rw [hInto] at h
    cases result with
    | str text => cases h
    | list texts =>
      rw [assign] at h
      split at h
      · cases h
      · rename_i hLength
        cases h
        exact List.map_fst_zip (by rw [List.length_map]; omega)

/-! ## One step -/

section Steps

variable {spec : Eval} {outcome : Outcome} {scope : Scope} {items : List (String × String)}

theorem evaluate_of_written (h : written py spec outcome scope = some items) :
    evaluate py spec scope.bindings = .ok items := by
  rw [written] at h
  split at h
  · cases hEval : evaluate py spec scope.bindings with
    | error e =>
      rw [hEval] at h
      cases h
    | ok items' =>
      rw [hEval] at h
      cases h
      rfl
  · cases h

theorem evalStep_written (h : written py spec outcome scope = some items) :
    evalStep py spec outcome scope =
      ⟨update scope.bindings items,
        (recordEval py spec (update scope.bindings items) scope.derived outcome.passed).2⟩ := by
  have hCrash : crashes py spec outcome scope = false := by
    rw [crashes, evaluate_of_written h, Bool.and_false]
  simp only [evalStep, hCrash, h, Bool.false_eq_true, if_false]

theorem evalStep_failed (h : written py spec outcome scope = none) :
    (evalStep py spec outcome scope).bindings = scope.bindings ∧
      ((evalStep py spec outcome scope).derived = scope.derived ∨
        (evalStep py spec outcome scope).derived = (recordEval py spec scope.bindings scope.derived false).2) := by
  rw [evalStep]
  split
  · exact ⟨rfl, .inl rfl⟩
  · rw [h]
    exact ⟨rfl, .inr rfl⟩

theorem secretVars_register (derived : DerivedSecrets) (values : List String) :
    (derived.register values).secretVars = derived.secretVars := rfl

/-- A mark goes only from a variable that a completed step writes with no secret in it. -/
theorem mem_secretVars_recordEval {bindings : List (String × String)} {derived : DerivedSecrets} {completed : Bool}
    {name : String} (hMem : name ∈ derived.secretVars)
    (hKept : completed = false ∨ derivesFromSecret spec derived.secretVars = true ∨ name ∉ spec.into.names) :
    name ∈ (recordEval py spec bindings derived completed).2.secretVars := by
  rw [recordEval]
  split
  · exact hMem
  · simp only
    split
    · exact List.mem_append_left _ hMem
    · rename_i hDerives
      split
      · rename_i hCompleted
        have hName : name ∉ spec.into.names := by
          simpa [hCompleted, hDerives] using hKept
        simpa [hName] using hMem
      · exact hMem

theorem values_recordEval {bindings : List (String × String)} {derived : DerivedSecrets} {completed : Bool}
    {value : String} (hMem : value ∈ derived.values) :
    value ∈ (recordEval py spec bindings derived completed).2.values := by
  rw [recordEval]
  split
  · exact hMem
  · simp only
    split
    · exact List.mem_append_left _ hMem
    · split <;> exact hMem

theorem names_bound (h : written py spec outcome scope = some items) :
    ∃ values, (spec.into.names.mapM fun name => get (update scope.bindings items) (varKey name)) = some values ∧
      ∀ name ∈ spec.into.names, ∃ value ∈ values, get (update scope.bindings items) (varKey name) = some value := by
  have hKeys := keys_evaluate (evaluate_of_written h)
  have hBound : ∀ name ∈ spec.into.names, ∃ value, get (update scope.bindings items) (varKey name) = some value := by
    intro name hName
    obtain ⟨value, hValue⟩ := @get_update_of_mem items (varKey name) (by rw [hKeys]; exact List.mem_map_of_mem hName)
    exact ⟨value, hValue _⟩
  generalize spec.into.names = names at hBound
  induction names with
  | nil => exact ⟨[], rfl, fun _ h => nomatch h⟩
  | cons name names ih =>
    obtain ⟨value, hValue⟩ := hBound name List.mem_cons_self
    obtain ⟨values, hValues, hAll⟩ := ih fun name hMem => hBound name (List.mem_cons_of_mem _ hMem)
    refine ⟨value :: values, ?_, ?_⟩
    · rw [List.mapM_cons, hValue, hValues]
      rfl
    · intro other hOther
      obtain rfl | hOther := List.mem_cons.mp hOther
      · exact ⟨value, List.mem_cons_self, hValue⟩
      · obtain ⟨value', hMem, hGet⟩ := hAll other hOther
        exact ⟨value', List.mem_cons_of_mem _ hMem, hGet⟩

theorem mem_register {derived : DerivedSecrets} {values : List String} {value : String} (hMem : value ∈ values) :
    value ∈ (derived.register values).values ∨ value = "" := by
  by_cases hEmpty : value = ""
  · exact .inr hEmpty
  · by_cases hThere : value ∈ derived.values
    · exact .inl (List.mem_append_left _ hThere)
    · refine .inl (List.mem_append_right _ (List.mem_filter.mpr ⟨List.mem_eraseDups.mpr hMem, ?_⟩))
      simp [hEmpty, hThere]

theorem recorded_secret (h : written py spec outcome scope = some items)
    (hDerives : derivesFromSecret spec scope.derived.secretVars = true) {name : String}
    (hName : name ∈ spec.into.names) :
    name ∈ (evalStep py spec outcome scope).derived.secretVars ∧
      ∀ value, get (evalStep py spec outcome scope).bindings (varKey name) = some value →
        value ∈ (evalStep py spec outcome scope).derived.values ∨ value = "" := by
  obtain ⟨values, hValues, hAll⟩ := names_bound h
  rw [evalStep_written h, recordEval, hValues]
  simp only [hDerives, if_true]
  refine ⟨List.mem_append_right _ hName, ?_⟩
  intro value hGet
  obtain ⟨value', hMem, hGet'⟩ := hAll name hName
  obtain rfl : value = value' := Option.some.inj (hGet.symm.trans hGet')
  exact mem_register hMem

/-- A token the step does not write is as it was, and is not newly unmarked. -/
theorem evalStep_quiet {key : String} (h : written py spec outcome scope = none ∨ key ∉ spec.into.names.map varKey) :
    get (evalStep py spec outcome scope).bindings key = get scope.bindings key ∧
      (isSecret (evalStep py spec outcome scope).derived.secretVars key = false →
        isSecret scope.derived.secretVars key = false) := by
  cases hWritten : written py spec outcome scope with
  | none =>
    obtain ⟨hBindings, hDerived⟩ := evalStep_failed hWritten
    refine ⟨by rw [hBindings], ?_⟩
    intro hNot
    by_contra hSecret
    obtain hAlways | ⟨name, hName, rfl⟩ := isSecret_cases (Bool.not_eq_false _ ▸ hSecret)
    · rw [hAlways] at hNot
      cases hNot
    · have hStill : name ∈ (evalStep py spec outcome scope).derived.secretVars := by
        obtain hSame | hRecorded := hDerived
        · rwa [hSame]
        · rw [hRecorded]
          exact mem_secretVars_recordEval hName (.inl rfl)
      rw [(isSecret_varKey _ _).mpr hStill] at hNot
      cases hNot
  | some items =>
    have hKey : key ∉ spec.into.names.map varKey := by simpa [hWritten] using h
    rw [evalStep_written hWritten]
    refine ⟨get_update_of_not_mem (by rwa [keys_evaluate (evaluate_of_written hWritten)]), ?_⟩
    intro hNot
    by_contra hSecret
    obtain hAlways | ⟨name, hName, rfl⟩ := isSecret_cases (Bool.not_eq_false _ ▸ hSecret)
    · rw [hAlways] at hNot
      cases hNot
    · have hOther : name ∉ spec.into.names := fun hMem => hKey (List.mem_map_of_mem hMem)
      rw [(isSecret_varKey _ _).mpr (mem_secretVars_recordEval hName (.inr (.inr hOther)))] at hNot
      cases hNot

end Steps

/-! ## Two runs -/

theorem runSteps_concat (scope : Scope) (steps : List (Eval × Outcome)) (spec : Eval) (outcome : Outcome) :
    runSteps py scope (steps ++ [(spec, outcome)]) = evalStep py spec outcome (runSteps py scope steps) :=
  List.foldl_concat ..

/-- The steps of two runs, each with its outcome in the one and in the other. -/
abbrev Paired := List (Eval × Outcome × Outcome)

def firstRun (steps : Paired) : List (Eval × Outcome) := steps.map fun step => (step.1, step.2.1)

def secondRun (steps : Paired) : List (Eval × Outcome) := steps.map fun step => (step.1, step.2.2)

/-- The same variables are secret, and the bindings differ in the values of these and of the secret tokens only. -/
structure SecretsApart (start₁ start₂ : Scope) : Prop where
  secretVars : start₁.derived.secretVars = start₂.derived.secretVars
  bindings : ∀ key, isSecret start₁.derived.secretVars key = false → get start₁.bindings key = get start₂.bindings key

/-- The step fails in both runs, or in neither and counts the same at its last `count`. -/
def Alike (py : Python) (spec : Eval) (outcome₁ outcome₂ : Outcome) (scope₁ scope₂ : Scope) : Prop :=
  (written py spec outcome₁ scope₁ = none ∧ written py spec outcome₂ scope₂ = none) ∨
    ((written py spec outcome₁ scope₁).isSome ∧ (written py spec outcome₂ scope₂).isSome ∧
      countAt py spec scope₁.bindings = countAt py spec scope₂.bindings)

/-- Every step that does not derive from a secret in one of the runs ends alike in the two. -/
def EndedAlike (py : Python) (start₁ start₂ : Scope) (steps : Paired) : Prop :=
  ∀ before spec outcome₁ outcome₂ after, steps = before ++ (spec, outcome₁, outcome₂) :: after →
    derivesFromSecret spec (runSteps py start₁ (firstRun before)).derived.secretVars = false ∨
      derivesFromSecret spec (runSteps py start₂ (secondRun before)).derived.secretVars = false →
    Alike py spec outcome₁ outcome₂ (runSteps py start₁ (firstRun before)) (runSteps py start₂ (secondRun before))

/-- What is secret in neither run is the same in both. -/
def Agree (scope₁ scope₂ : Scope) : Prop :=
  ∀ key, isSecret scope₁.derived.secretVars key = false → isSecret scope₂.derived.secretVars key = false →
    get scope₁.bindings key = get scope₂.bindings key

theorem tokens_agree {spec : Eval} {scope₁ scope₂ : Scope} (hAgree : Agree scope₁ scope₂)
    (h₁ : derivesFromSecret spec scope₁.derived.secretVars = false)
    (h₂ : derivesFromSecret spec scope₂.derived.secretVars = false) :
    ∀ token ∈ inputTokens spec, get scope₁.bindings token = get scope₂.bindings token := by
  intro token hMem
  rw [derivesFromSecret, List.any_eq_false] at h₁ h₂
  exact hAgree token (Bool.eq_false_iff.mpr (h₁ token hMem)) (Bool.eq_false_iff.mpr (h₂ token hMem))

theorem not_derives_of_unmarked {spec : Eval} {outcome : Outcome} {scope : Scope} {items : List (String × String)}
    {key : String} (hWritten : written py spec outcome scope = some items) (hKey : key ∈ spec.into.names.map varKey)
    (hNot : isSecret (evalStep py spec outcome scope).derived.secretVars key = false) :
    derivesFromSecret spec scope.derived.secretVars = false := by
  rw [Bool.eq_false_iff]
  intro hDerives
  obtain ⟨name, hName, rfl⟩ := List.mem_map.mp hKey
  rw [(isSecret_varKey _ _).mpr (recorded_secret hWritten hDerives hName).1] at hNot
  cases hNot

theorem Agree.step {spec : Eval} {outcome₁ outcome₂ : Outcome} {scope₁ scope₂ : Scope} (hAgree : Agree scope₁ scope₂)
    (hAlike : derivesFromSecret spec scope₁.derived.secretVars = false ∨
        derivesFromSecret spec scope₂.derived.secretVars = false →
      Alike py spec outcome₁ outcome₂ scope₁ scope₂) :
    Agree (evalStep py spec outcome₁ scope₁) (evalStep py spec outcome₂ scope₂) := by
  intro key hNot₁ hNot₂
  by_cases hKey : key ∈ spec.into.names.map varKey
  · cases hWritten₁ : written py spec outcome₁ scope₁ with
    | some items₁ =>
      have hPublic₁ := not_derives_of_unmarked hWritten₁ hKey hNot₁
      obtain ⟨hNone, -⟩ | ⟨-, hSome, hCount⟩ := hAlike (.inl hPublic₁)
      · rw [hNone] at hWritten₁
        cases hWritten₁
      · obtain ⟨items₂, hWritten₂⟩ := Option.isSome_iff_exists.mp hSome
        have hPublic₂ := not_derives_of_unmarked hWritten₂ hKey hNot₂
        obtain rfl := evaluate_congr (tokens_agree hAgree hPublic₁ hPublic₂) hCount (evaluate_of_written hWritten₁)
          (evaluate_of_written hWritten₂)
        rw [← keys_evaluate (evaluate_of_written hWritten₁)] at hKey
        obtain ⟨value, hValue⟩ := get_update_of_mem hKey
        rw [evalStep_written hWritten₁, evalStep_written hWritten₂, hValue, hValue]
    | none =>
      cases hWritten₂ : written py spec outcome₂ scope₂ with
      | some items₂ =>
        have hPublic₂ := not_derives_of_unmarked hWritten₂ hKey hNot₂
        obtain ⟨-, hNone⟩ | ⟨hSome, -⟩ := hAlike (.inr hPublic₂)
        · rw [hNone] at hWritten₂
          cases hWritten₂
        · rw [hWritten₁] at hSome
          cases hSome
      | none =>
        obtain ⟨hGet₁, hBefore₁⟩ := evalStep_quiet (.inl hWritten₁)
        obtain ⟨hGet₂, hBefore₂⟩ := evalStep_quiet (.inl hWritten₂)
        rw [hGet₁, hGet₂]
        exact hAgree key (hBefore₁ hNot₁) (hBefore₂ hNot₂)
  · obtain ⟨hGet₁, hBefore₁⟩ := @evalStep_quiet py spec outcome₁ scope₁ key (.inr hKey)
    obtain ⟨hGet₂, hBefore₂⟩ := @evalStep_quiet py spec outcome₂ scope₂ key (.inr hKey)
    rw [hGet₁, hGet₂]
    exact hAgree key (hBefore₁ hNot₁) (hBefore₂ hNot₂)

theorem agree_run {start₁ start₂ : Scope} {steps : Paired} (hStart : SecretsApart start₁ start₂)
    (hAlike : EndedAlike py start₁ start₂ steps) :
    Agree (runSteps py start₁ (firstRun steps)) (runSteps py start₂ (secondRun steps)) := by
  induction steps using List.reverseRecOn with
  | nil => exact fun key hNot _ => hStart.bindings key hNot
  | append_singleton steps step ih =>
    obtain ⟨spec, outcome₁, outcome₂⟩ := step
    have hBefore : EndedAlike py start₁ start₂ steps := by
      rintro before spec' outcome₁' outcome₂' after rfl
      exact hAlike before spec' outcome₁' outcome₂' (after ++ [(spec, outcome₁, outcome₂)]) (by simp)
    have hStep := hAlike steps spec outcome₁ outcome₂ [] rfl
    rw [firstRun, secondRun, List.map_append, List.map_append]
    simp only [List.map_cons, List.map_nil]
    rw [runSteps_concat, runSteps_concat]
    exact (ih hBefore).step hStep

/-! ## What holds a secret -/

/-- The variable's value in a run is secret: it is from the start, or a secret went into the step that wrote it. -/
inductive Holds (py : Python) (start : Scope) : List (Eval × Outcome) → String → Prop
  | initial {name} (marked : name ∈ start.derived.secretVars) : Holds py start [] name
  | kept {before spec outcome name} (still : Holds py start before name)
    (other : written py spec outcome (runSteps py start before) = none ∨ name ∉ spec.into.names) :
    Holds py start (before ++ [(spec, outcome)]) name
  | secret {before spec outcome items name token} (wrote : written py spec outcome (runSteps py start before) = some items)
    (target : name ∈ spec.into.names) (carried : Carries spec token) (isSecret : ∀ marked, isSecret marked token = true) :
    Holds py start (before ++ [(spec, outcome)]) name
  | var {before spec outcome items name source} (wrote : written py spec outcome (runSteps py start before) = some items)
    (target : name ∈ spec.into.names) (carried : Carries spec (varKey source)) (secret : Holds py start before source) :
    Holds py start (before ++ [(spec, outcome)]) name

/-- An `eval` step of the run wrote the variable. -/
def Wrote (py : Python) (start : Scope) (steps : List (Eval × Outcome)) (name : String) : Prop :=
  ∃ before spec outcome after, steps = before ++ (spec, outcome) :: after ∧
    (written py spec outcome (runSteps py start before)).isSome ∧ name ∈ spec.into.names

theorem Wrote.before {start : Scope} {before : List (Eval × Outcome)} {spec : Eval} {outcome : Outcome} {name : String}
    (h : Wrote py start (before ++ [(spec, outcome)]) name)
    (hOther : written py spec outcome (runSteps py start before) = none ∨ name ∉ spec.into.names) :
    Wrote py start before name := by
  obtain ⟨front, spec', outcome', after, hSplit, hWritten, hName⟩ := h
  obtain rfl | ⟨last, after', rfl⟩ := List.eq_nil_or_concat after
  · obtain ⟨rfl, hSame⟩ := List.append_inj' hSplit rfl
    obtain ⟨rfl, rfl⟩ := Prod.mk.inj (List.cons.inj hSame).1
    obtain hNone | hNot := hOther
    · rw [hNone] at hWritten
      cases hWritten
    · exact absurd hName hNot
  · rw [List.concat_eq_append, ← List.cons_append, ← List.append_assoc] at hSplit
    obtain ⟨rfl, -⟩ := List.append_inj' hSplit rfl
    exact ⟨front, spec', outcome', _, rfl, hWritten, hName⟩

theorem varKey_injective {name name' : String} (h : varKey name = varKey name') : name = name' := by
  have hList := congrArg String.toList h
  rw [toList_varKey, toList_varKey] at hList
  exact String.toList_inj.mp (List.append_cancel_left hList)

theorem values_evalStep {spec : Eval} {outcome : Outcome} {scope : Scope} {value : String}
    (hMem : value ∈ scope.derived.values) : value ∈ (evalStep py spec outcome scope).derived.values := by
  cases hWritten : written py spec outcome scope with
  | none =>
    obtain ⟨-, hSame | hRecorded⟩ := evalStep_failed hWritten
    · rwa [hSame]
    · rw [hRecorded]
      exact values_recordEval hMem
  | some items =>
    rw [evalStep_written hWritten]
    exact values_recordEval hMem

theorem marked_of_holds {start : Scope} {steps : List (Eval × Outcome)} {name : String}
    (h : Holds py start steps name) :
    name ∈ (runSteps py start steps).derived.secretVars ∧
      (Wrote py start steps name → ∀ value, get (runSteps py start steps).bindings (varKey name) = some value →
        value ∈ (runSteps py start steps).derived.values ∨ value = "") := by
  induction h with
  | initial marked =>
    refine ⟨marked, ?_⟩
    rintro ⟨before, spec, outcome, after, hSplit, -⟩
    simp at hSplit
  | @kept before spec outcome name _ other ih =>
    obtain ⟨hMarked, hRegistered⟩ := ih
    have hKey : written py spec outcome (runSteps py start before) = none ∨ varKey name ∉ spec.into.names.map varKey := by
      refine other.imp_right fun hNot hMem => ?_
      obtain ⟨name', hName', hEq⟩ := List.mem_map.mp hMem
      exact hNot (varKey_injective hEq ▸ hName')
    obtain ⟨hGet, hBefore⟩ := evalStep_quiet hKey
    rw [runSteps_concat]
    constructor
    · by_contra hNot
      have hUnmarked := hBefore (Bool.eq_false_iff.mpr fun h => hNot ((isSecret_varKey _ _).mp h))
      rw [(isSecret_varKey _ _).mpr hMarked] at hUnmarked
      cases hUnmarked
    · intro hWrote value hValue
      exact (hRegistered (hWrote.before other) value (hGet ▸ hValue)).imp_left values_evalStep
  | secret wrote target carried isSecret =>
    have hRecorded := recorded_secret wrote (derivesFromSecret_of_carries carried (isSecret _)) target
    rw [runSteps_concat]
    exact ⟨hRecorded.1, fun _ => hRecorded.2⟩
  | var wrote target carried _ ih =>
    have hRecorded := recorded_secret wrote
      (derivesFromSecret_of_carries carried ((isSecret_varKey _ _).mpr ih.1)) target
    rw [runSteps_concat]
    exact ⟨hRecorded.1, fun _ => hRecorded.2⟩

/-! ## The step is sound -/

/-- A step that derives from a secret in neither run writes the same in both, if what came before ended alike and the
counts are the same; what holds a secret is marked, and registered unless it is empty; a failed step takes no mark. -/
theorem secret_taint_sound (py : Python) :
    (∀ start₁ start₂ steps, SecretsApart start₁ start₂ → EndedAlike py start₁ start₂ steps →
      ∀ spec outcome₁ outcome₂ scope₁ scope₂, runSteps py start₁ (firstRun steps) = scope₁ →
        runSteps py start₂ (secondRun steps) = scope₂ →
        derivesFromSecret spec scope₁.derived.secretVars = false →
        derivesFromSecret spec scope₂.derived.secretVars = false →
        (written py spec outcome₁ scope₁).isSome → (written py spec outcome₂ scope₂).isSome →
        countAt py spec scope₁.bindings = countAt py spec scope₂.bindings →
        ∀ name ∈ spec.into.names, get (evalStep py spec outcome₁ scope₁).bindings (varKey name) =
          get (evalStep py spec outcome₂ scope₂).bindings (varKey name)) ∧
    (∀ start steps name, Holds py start steps name →
      name ∈ (runSteps py start steps).derived.secretVars ∧
        (Wrote py start steps name → ∀ value, get (runSteps py start steps).bindings (varKey name) = some value →
          value ∈ (runSteps py start steps).derived.values ∨ value = "")) ∧
    ∀ spec outcome scope, outcome.passed = false ∨ written py spec outcome scope = none →
      ∀ name ∈ scope.derived.secretVars, name ∈ (evalStep py spec outcome scope).derived.secretVars := by
  refine ⟨?_, fun start steps name h => marked_of_holds h, ?_⟩
  · rintro start₁ start₂ steps hStart hAlike spec outcome₁ outcome₂ _ _ rfl rfl hPublic₁ hPublic₂ hSome₁ hSome₂ hCount
      name hName
    obtain ⟨items₁, hWritten₁⟩ := Option.isSome_iff_exists.mp hSome₁
    obtain ⟨items₂, hWritten₂⟩ := Option.isSome_iff_exists.mp hSome₂
    have hAgree := agree_run hStart hAlike
    obtain rfl := evaluate_congr (tokens_agree hAgree hPublic₁ hPublic₂) hCount (evaluate_of_written hWritten₁)
      (evaluate_of_written hWritten₂)
    have hKey : varKey name ∈ items₁.map Prod.fst := by
      rw [keys_evaluate (evaluate_of_written hWritten₁)]
      exact List.mem_map_of_mem hName
    obtain ⟨value, hValue⟩ := get_update_of_mem hKey
    rw [evalStep_written hWritten₁, evalStep_written hWritten₂, hValue, hValue]
  · intro spec outcome scope hFailed name hName
    cases hWritten : written py spec outcome scope with
    | none =>
      obtain ⟨-, hSame | hRecorded⟩ := evalStep_failed hWritten
      · rwa [hSame]
      · rw [hRecorded]
        exact mem_secretVars_recordEval hName (.inl rfl)
    | some items =>
      have hPassed : outcome.passed = false := by simpa [hWritten] using hFailed
      rw [evalStep_written hWritten]
      exact mem_secretVars_recordEval hName (.inl hPassed)

/-! A count over a secret list, and a step that reads the count. -/

def plainPython : Python where
  compile _ := .error
  loads _ := none
  jsonText _ := "[]"
  lower := id
  upper := id

def countStep : Eval := ⟨"${secrets.LIST}", [.dict [("split", .str ",")], .str "count"], .var "n"⟩

def copyStep : Eval := ⟨"${vars.n}", [.str "trim"], .var "m"⟩

def fine : Outcome := ⟨true, true⟩

def startWith (list : String) : Scope := ⟨[("secrets.LIST", list)], ⟨[], []⟩⟩

theorem secretsApart_startWith (list₁ list₂ : String) : SecretsApart (startWith list₁) (startWith list₂) := by
  constructor
  · rfl
  · intro key hNot
    have hKey : "secrets.LIST" ≠ key := by
      rintro rfl
      have hSecret : isSecret [] "secrets.LIST" = true := by decide +kernel
      cases hSecret.symm.trans hNot
    rw [startWith, startWith, get_cons, get_cons, if_neg hKey, if_neg hKey]

theorem copied_count_same :
    get (evalStep plainPython copyStep fine (runSteps plainPython (startWith "a,b") [(countStep, fine)])).bindings
        (varKey "m") =
      get (evalStep plainPython copyStep fine (runSteps plainPython (startWith "c,d") [(countStep, fine)])).bindings
        (varKey "m") := by
  refine (secret_taint_sound plainPython).1 (startWith "a,b") (startWith "c,d") [(countStep, fine, fine)]
    (secretsApart_startWith _ _) ?_ copyStep fine fine _ _ rfl rfl (by decide +kernel) (by decide +kernel)
    (by decide +kernel) (by decide +kernel) (by decide +kernel) "m" (by decide +kernel)
  intro before spec outcome₁ outcome₂ after hEq _
  cases before with
  | nil =>
    obtain ⟨hStep, -⟩ := List.cons.inj hEq
    cases hStep
    exact .inr ⟨by decide +kernel, by decide +kernel, by decide +kernel⟩
  | cons step before => simp at hEq

/-- Without the condition on what came before, a count over a secret reaches a step that derives from none; and an
empty value is not registered. -/
theorem count_reaches_copy :
    (¬∀ start₁ start₂ steps, SecretsApart start₁ start₂ →
      ∀ spec outcome₁ outcome₂ scope₁ scope₂, runSteps plainPython start₁ (firstRun steps) = scope₁ →
        runSteps plainPython start₂ (secondRun steps) = scope₂ →
        derivesFromSecret spec scope₁.derived.secretVars = false →
        derivesFromSecret spec scope₂.derived.secretVars = false →
        (written plainPython spec outcome₁ scope₁).isSome → (written plainPython spec outcome₂ scope₂).isSome →
        countAt plainPython spec scope₁.bindings = countAt plainPython spec scope₂.bindings →
        ∀ name ∈ spec.into.names, get (evalStep plainPython spec outcome₁ scope₁).bindings (varKey name) =
          get (evalStep plainPython spec outcome₂ scope₂).bindings (varKey name)) ∧
      (runSteps plainPython (startWith " ") [(⟨"${secrets.LIST}", [.str "trim"], .var "v"⟩, fine)]).derived =
        ⟨[], ["v"]⟩ := by
  constructor
  · intro hAll
    have hSame := hAll (startWith "a") (startWith "a,b") [(countStep, fine, fine)] (secretsApart_startWith _ _) copyStep
      fine fine _ _ rfl rfl (by decide +kernel) (by decide +kernel) (by decide +kernel) (by decide +kernel)
      (by decide +kernel) "m" (by decide +kernel)
    exact absurd hSame (by decide +kernel)
  · have hDerived : ∀ derived : DerivedSecrets, derived.values = [] → derived.secretVars = ["v"] → derived = ⟨[], ["v"]⟩ := by
      rintro ⟨_, _⟩ rfl rfl
      rfl
    exact hDerived _ (by decide +kernel) (by decide +kernel)

end Bajutsu.Orchestrator.EvalStep
