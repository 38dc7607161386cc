import Bajutsu.Orchestrator.Eval

/-!
# What the result of an `eval` step depends on

With no `count`, a pipeline's result depends on the tokens of the whole step; with one, on the element count at the
last `count` and the tokens after it.
-/

namespace Bajutsu.Orchestrator.EvalStep

open PyValue Scenarios

variable {py : Python}

/-! ## Parsing position by position -/

/-- The operations parse to these, the first of them at the position. -/
inductive Parses (py : Python) : Nat → List Val → List EvalOp → Prop
  | nil position : Parses py position [] []
  | cons {position raw raws name op ops} (first : parseOne py raw position false = .ok (name, some op))
    (rest : Parses py (position + 1) raws ops) : Parses py position (raw :: raws) (op :: ops)

theorem parses_of_parseAll {position : Nat} {raws : List Val} {parsed : List (String × Option EvalOp)}
    {ops : List EvalOp} (hParsed : parseAll py false position raws = .ok parsed)
    (hOps : (parsed.mapM fun op => match op.2 with | some op => Except.ok op | none => Except.error Raised.crash) =
      .ok ops) : Parses py position raws ops := by
  induction raws generalizing position parsed ops with
  | nil =>
    cases hParsed
    cases hOps
    exact .nil position
  | cons raw raws ih =>
    rw [parseAll] at hParsed
    obtain ⟨⟨name, first⟩, hFirst, hParsed⟩ := bind_eq_ok hParsed
    obtain ⟨rest, hRest, hParsed⟩ := bind_eq_ok hParsed
    cases hParsed
    rw [List.mapM_cons] at hOps
    obtain ⟨op, hOp, hOps⟩ := bind_eq_ok hOps
    obtain ⟨ops, hTail, hOps⟩ := bind_eq_ok hOps
    cases hOps
    cases first with
    | none => cases hOp
    | some first =>
      cases hOp
      exact .cons hFirst (ih hRest hTail)

theorem parses_of_parseOps {raws : List Val} {ops : List EvalOp} (h : parseOps py raws = .ok ops) :
    Parses py 1 raws ops := by
  obtain ⟨-, -, h⟩ := bind_eq_ok h
  obtain ⟨parsed, hParsed, hOps⟩ := bind_eq_ok h
  exact parses_of_parseAll hParsed hOps

theorem Parses.length {position : Nat} {raws : List Val} {ops : List EvalOp} (h : Parses py position raws ops) :
    ops.length = raws.length := by
  induction h with
  | nil => rfl
  | cons _ _ ih => rw [List.length_cons, List.length_cons, ih]

theorem Parses.unique {position : Nat} {raws : List Val} {ops ops' : List EvalOp} (h : Parses py position raws ops)
    (h' : Parses py position raws ops') : ops = ops' := by
  induction h generalizing ops' with
  | nil => cases h'; rfl
  | cons hFirst _ ih =>
    cases h' with
    | cons hFirst' hRest' =>
      rw [hFirst] at hFirst'
      cases hFirst'
      rw [ih hRest']

theorem Parses.append {position : Nat} {before after : List Val} {ops : List EvalOp}
    (h : Parses py position (before ++ after) ops) :
    ∃ opsBefore opsAfter, ops = opsBefore ++ opsAfter ∧ Parses py position before opsBefore ∧
      Parses py (position + before.length) after opsAfter := by
  induction before generalizing position ops with
  | nil => exact ⟨[], ops, rfl, .nil position, h⟩
  | cons raw before ih =>
    cases h with
    | cons hFirst hRest =>
      obtain ⟨opsBefore, opsAfter, rfl, hBefore, hAfter⟩ := ih hRest
      refine ⟨_, opsAfter, rfl, .cons hFirst hBefore, ?_⟩
      rwa [List.length_cons, Nat.add_comm before.length, ← Nat.add_assoc]

theorem count_of_rawName {bindings : List (String × String)} {raw : Val} {position : Nat} {name : String} {op : EvalOp}
    (hName : rawName raw = "count") (hParse : parseOne py (interpolate bindings raw) position false = .ok (name, some op)) :
    op = .bare .count := by
  cases raw with
  | str text =>
    obtain rfl : text = "count" := hName
    have hSame : interpolate bindings (.str "count") = .str "count" := rfl
    rw [hSame] at hParse
    cases hParse
    rfl
  | dict items =>
    match items, hName with
    | [(key, arg)], hName =>
      obtain rfl : key = "count" := hName
      cases hParse
    | (key, arg) :: item :: items, _ =>
      cases hParse
  | _ => simp [rawName] at hName

/-! ## Running from a position -/

theorem runFrom_append (position : Nat) (value : Value) (before after : List EvalOp) :
    runFrom py position value (before ++ after) =
      runFrom py position value before >>= fun value => runFrom py (position + before.length) value after := by
  induction before generalizing position value with
  | nil => rfl
  | cons op before ih =>
    simp only [List.cons_append, runFrom, List.length_cons]
    cases hApply : apply py value op (.op position (opName op)) with
    | error e => rfl
    | ok value' =>
      cases hChecked : checked value' (.op position (opName op)) with
      | error e =>
        simp only [bind, Except.bind, hChecked]
      | ok value'' =>
        simp only [bind, Except.bind, hChecked] at ih ⊢
        rw [ih, Nat.add_right_comm, Nat.add_assoc]

/-! ## The last `count` -/

theorem afterCount_eq_none_iff {ops : List Val} : afterCount ops = none ↔ ∀ op ∈ ops, rawName op ≠ "count" := by
  induction ops with
  | nil => simp [afterCount]
  | cons op ops ih =>
    rw [afterCount, List.forall_mem_cons]
    cases hRest : afterCount ops with
    | some rest =>
      rw [hRest] at ih
      simp only [reduceCtorEq, false_iff] at ih ⊢
      exact fun h => ih h.2
    | none =>
      have hNone := ih.mp hRest
      by_cases hName : rawName op = "count"
      · simp [hName]
      · simpa [hName] using hNone

theorem afterCount_eq_some {ops rest : List Val} (h : afterCount ops = some rest) :
    ∃ before op, ops = before ++ op :: rest ∧ rawName op = "count" ∧ ∀ later ∈ rest, rawName later ≠ "count" := by
  induction ops with
  | nil => cases h
  | cons op ops ih =>
    rw [afterCount] at h
    split at h
    · rename_i rest' hRest
      cases h
      obtain ⟨before, op', rfl, hName, hLater⟩ := ih hRest
      exact ⟨op :: before, op', rfl, hName, hLater⟩
    · rename_i hNone
      split at h
      · rename_i hName
        cases h
        exact ⟨[], op, rfl, hName, afterCount_eq_none_iff.mp hNone⟩
      · cases h

/-- The value before the operation at the index. -/
def valueBefore (py : Python) (spec : Eval) (bindings : List (String × String)) (i : Nat) : Result Value := do
  let (source, rawOps) ← substituted spec bindings
  let ops ← parseOps py rawOps
  let value ← checked (.str source) .from_
  runFrom py 1 value (ops.take i)

/-- The element count at the step's last `count`, where it has one and the pipeline gets there. -/
def countAt (py : Python) (spec : Eval) (bindings : List (String × String)) : Option Nat :=
  match afterCount spec.ops with
  | none => none
  | some rest =>
    match valueBefore py spec bindings (spec.ops.length - (rest.length + 1)) with
    | .ok (.list items) => some items.length
    | _ => none

theorem substituted_ok {spec : Eval} {bindings : List (String × String)} {source : String} {rawOps : List Val}
    (h : substituted spec bindings = .ok (source, rawOps)) :
    source = interpStr bindings spec.from_ ∧ rawOps = interpolateAll bindings spec.ops := by
  rw [substituted] at h
  split at h
  · cases h
    exact ⟨rfl, rfl⟩
  · cases h

/-- A pipeline with a `count` in it ends as what follows the `count` does with the element count. -/
theorem evaluate_count {spec : Eval} {bindings items : List (String × String)} {before rest : List Val} {op : Val}
    (hSplit : spec.ops = before ++ op :: rest) (hName : rawName op = "count")
    (h : evaluate py spec bindings = .ok items) :
    ∃ counted ops, valueBefore py spec bindings before.length = .ok (.list counted) ∧
      Parses py (before.length + 2) (interpolateAll bindings rest) ops ∧
      (runFrom py (before.length + 2) (.str (String.ofList (PyText.decimal counted.length))) ops >>=
        assign py spec.into) = .ok items := by
  obtain ⟨⟨source, rawOps⟩, hSubst, h⟩ := bind_eq_ok h
  obtain ⟨ops, hParse, h⟩ := bind_eq_ok h
  obtain ⟨result, hRun, hAssign⟩ := bind_eq_ok h
  obtain ⟨value, hValue, hRun⟩ := bind_eq_ok hRun
  have hRaw : rawOps = interpolateAll bindings before ++ interpolate bindings op :: interpolateAll bindings rest := by
    rw [(substituted_ok hSubst).2, hSplit]
    simp only [interpolateAll_eq_map, List.map_append, List.map_cons]
  have hLength : (interpolateAll bindings before).length = before.length := by
    rw [interpolateAll_eq_map, List.length_map]
  have hParses : Parses py 1 rawOps ops := parses_of_parseOps hParse
  rw [hRaw] at hParses
  obtain ⟨opsBefore, opsFrom, rfl, hBefore, hFrom⟩ := hParses.append
  cases hFrom with
  | cons hFirst hRest =>
    obtain rfl := count_of_rawName hName hFirst
    rw [hLength, Nat.add_right_comm, Nat.add_comm (1 + 1)] at hRest
    have hBeforeLength : opsBefore.length = before.length := hBefore.length.trans hLength
    rw [runFrom_append] at hRun
    obtain ⟨value', hValue', hRun⟩ := bind_eq_ok hRun
    rw [runFrom] at hRun
    cases value' with
    | str text =>
      obtain ⟨_, hApply, -⟩ := bind_eq_ok hRun
      cases hApply
    | list counted =>
      obtain ⟨_, hApply, hRun⟩ := bind_eq_ok hRun
      cases hApply
      obtain ⟨value'', hChecked, hRun⟩ := bind_eq_ok hRun
      have hSame : value'' = .str (String.ofList (PyText.decimal counted.length)) := by
        rw [checked] at hChecked
        split at hChecked
        · cases hChecked
        · cases hChecked
          rfl
      refine ⟨counted, _, ?_, hRest, ?_⟩
      · rw [valueBefore, hSubst]
        simp only [bind, Except.bind, hParse, hValue]
        rw [← hBeforeLength, List.take_left]
        exact hValue'
      · rw [hBeforeLength, hSame] at hRun
        rw [show before.length + 2 = 1 + before.length + 1 by omega, hRun]
        exact hAssign

/-- Two evaluations from bindings that agree on what can pass through write the same, if they count the same at the
last `count`. -/
theorem evaluate_congr {spec : Eval} {b₁ b₂ items₁ items₂ : List (String × String)}
    (hTokens : ∀ token ∈ inputTokens spec, get b₁ token = get b₂ token) (hCount : countAt py spec b₁ = countAt py spec b₂)
    (h₁ : evaluate py spec b₁ = .ok items₁) (h₂ : evaluate py spec b₂ = .ok items₂) : items₁ = items₂ := by
  cases hAfter : afterCount spec.ops with
  | none =>
    rw [inputTokens, hAfter] at hTokens
    have hSource : interpStr b₁ spec.from_ = interpStr b₂ spec.from_ :=
      interpStr_congr fun token hMem => hTokens token (List.mem_append_left _ hMem)
    have hOps : interpolateAll b₁ spec.ops = interpolateAll b₂ spec.ops :=
      interpolateAll_congr fun token hMem => hTokens token (List.mem_append_right _ hMem)
    have hMissing : (tokensOf spec.from_ ++ findTokensAll spec.ops).filter (fun token => (get b₁ token).isNone) =
        (tokensOf spec.from_ ++ findTokensAll spec.ops).filter fun token => (get b₂ token).isNone :=
      List.filter_congr fun token hMem => by rw [hTokens token hMem]
    have hSame : evaluate py spec b₁ = evaluate py spec b₂ := by
      rw [evaluate, evaluate, substituted, substituted, hSource, hOps, hMissing]
    rw [hSame, h₂] at h₁
    cases h₁
    rfl
  | some rest =>
    rw [inputTokens, hAfter] at hTokens
    obtain ⟨before, op, hSplit, hName, -⟩ := afterCount_eq_some hAfter
    obtain ⟨counted₁, ops₁, hValue₁, hParses₁, hItems₁⟩ := evaluate_count hSplit hName h₁
    obtain ⟨counted₂, ops₂, hValue₂, hParses₂, hItems₂⟩ := evaluate_count hSplit hName h₂
    have hIndex : spec.ops.length - (rest.length + 1) = before.length := by
      rw [hSplit, List.length_append, List.length_cons]
      omega
    have hLength : counted₁.length = counted₂.length := by
      simpa only [countAt, hAfter, hIndex, hValue₁, hValue₂, Option.some.injEq] using hCount
    rw [interpolateAll_congr hTokens] at hParses₁
    rw [hParses₁.unique hParses₂, hLength, hItems₂] at hItems₁
    cases hItems₁
    rfl

end Bajutsu.Orchestrator.EvalStep
