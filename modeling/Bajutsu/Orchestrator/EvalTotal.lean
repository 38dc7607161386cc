import Bajutsu.Orchestrator.EvalSecrets
import Bajutsu.Scenarios.EvalRaises

/-!
# An `eval` pipeline that loads

The static check and the evaluator walk the same pipeline apart: a value is of the kind that the check assumed. The
evaluator returns or raises an `EvalOpError`, unless an argument or a replacement overflows.
-/

namespace Bajutsu.Orchestrator.EvalStep

open PyValue Scenarios

variable {py : Python}

def Value.kind : Value → ValueKind
  | .str _ => .string
  | .list _ => .list

/-- `_do_eval` where there are variables to write: an error leaves them as they are. -/
def doEval (py : Python) (spec : Eval) (bindings : List (String × String)) : Result Unit × List (String × String) :=
  match evaluate py spec bindings with
  | .ok items => (.ok (), update bindings items)
  | .error e => (.error e, bindings)

/-- A step that the models accept. -/
structure LoadedEval (py : Python) extends Eval where
  kind : ValueKind
  loads : checkOps py ops = .ok kind
  spread : ∀ names named, into = .vars names named → kind = .list

/-! ## What a parsed operation holds -/

def Compiles (py : Python) (pattern : String) : Prop := ∃ compiled, py.compile pattern = .ok compiled

/-- The separator is not empty, and the patterns compile. -/
def WellFormed (py : Python) : EvalOp → Prop
  | .split by_ regex => by_ ≠ "" ∧ (regex = true → Compiles py by_)
  | .filter kind arg _ => kind = .matches_ → Compiles py arg
  | .regexOp pattern _ => Compiles py pattern
  | .replace find _ regex => regex = true → Compiles py find
  | _ => True

section Parsers

variable {a : Args} {raw : Val} {op : EvalOp}

theorem compiles_of_pattern {value label text : String} (h : a.pattern py value label = .ok text) :
    text = value ∧ Compiles py value := by
  rw [Args.pattern] at h
  obtain ⟨_, -, h⟩ := bind_eq_ok h
  split at h
  · rename_i compiled hCompile
    cases h
    exact ⟨rfl, compiled, hCompile⟩
  · cases h
  · cases h

theorem parseSplit_wellFormed (h : parseSplit py a raw = .ok op) : opName op = "split" ∧ WellFormed py op := by
  have hRest (a : Args) (h : (do
        a.only ["by", "regex"]
        let by_ ← a.text "by" none
        let regex ← a.flag "regex"
        a.deferIfToken (.str by_)
        if by_ = "" then a.fail "the separator must not be empty"
        else if regex then return .split (← a.pattern py by_ "`by`") regex
        else return .split by_ regex : Except Stop EvalOp) = .ok op) : opName op = "split" ∧ WellFormed py op := by
    obtain ⟨_, -, h⟩ := bind_eq_ok h
    obtain ⟨by_, -, h⟩ := bind_eq_ok h
    obtain ⟨regex, -, h⟩ := bind_eq_ok h
    obtain ⟨_, -, h⟩ := bind_eq_ok h
    split at h
    · cases h
    rename_i hNe
    split at h
    · obtain ⟨text, hPattern, hOp⟩ := bind_eq_ok h
      obtain ⟨rfl, hCompiles⟩ := compiles_of_pattern hPattern
      cases hOp
      exact ⟨rfl, hNe, fun _ => hCompiles⟩
    · rename_i hLiteral
      cases h
      exact ⟨rfl, hNe, fun hRegex => absurd hRegex hLiteral⟩
  cases raw with
  | str by_ => exact hRest (a.over_ [("by", .str by_)]) h
  | dict items => exact hRest (a.over_ items) h
  | _ => cases h

theorem parseFilter_wellFormed (h : parseFilter py a raw = .ok op) : opName op = "filter" ∧ WellFormed py op := by
  unfold parseFilter at h
  split at h
  · obtain ⟨_, -, h⟩ := bind_eq_ok h
    split at h
    · obtain ⟨negate, -, h⟩ := bind_eq_ok h
      split at h
      · rename_i hNotEmpty
        split at h
        · cases h
          exact ⟨rfl, fun hMatches => by rw [hNotEmpty] at hMatches; cases hMatches⟩
        · cases h
      · obtain ⟨arg, -, h⟩ := bind_eq_ok h
        split at h
        · obtain ⟨text, hPattern, hOp⟩ := bind_eq_ok h
          obtain ⟨rfl, hCompiles⟩ := compiles_of_pattern hPattern
          cases hOp
          exact ⟨rfl, fun _ => hCompiles⟩
        · rename_i hOther
          obtain ⟨_, -, h⟩ := bind_eq_ok h
          cases h
          exact ⟨rfl, fun hMatches => absurd hMatches hOther⟩
    · cases h
  · cases h

theorem parsePick_wellFormed (h : parsePick a raw = .ok op) : opName op = "pick" ∧ WellFormed py op := by
  unfold parsePick at h
  split at h
  · cases h
    exact ⟨rfl, trivial⟩
  · cases h
    exact ⟨rfl, trivial⟩
  · obtain ⟨_, -, h⟩ := bind_eq_ok h
    obtain ⟨_, -, h⟩ := bind_eq_ok h
    cases h
    exact ⟨rfl, trivial⟩

theorem parseSort_wellFormed (h : parseSort a raw = .ok op) : opName op = "sort" ∧ WellFormed py op := by
  have hArgs {items : List (String × Val)} (h : parseSort.ofArgs a items = .ok op) :
      opName op = "sort" ∧ WellFormed py op := by
    rw [parseSort.ofArgs] at h
    obtain ⟨_, -, h⟩ := bind_eq_ok h
    obtain ⟨_, -, h⟩ := bind_eq_ok h
    split at h
    · obtain ⟨_, -, h⟩ := bind_eq_ok h
      cases h
      exact ⟨rfl, trivial⟩
    · obtain ⟨_, -, h⟩ := bind_eq_ok h
      cases h
      exact ⟨rfl, trivial⟩
    · cases h
  cases raw with
  | null =>
    cases h
    exact ⟨rfl, trivial⟩
  | str order => exact hArgs h
  | dict items => exact hArgs h
  | _ => cases h

theorem parseRegex_wellFormed (h : parseRegex py a raw = .ok op) : opName op = "regex" ∧ WellFormed py op := by
  unfold parseRegex at h
  split at h
  · obtain ⟨_, -, h⟩ := bind_eq_ok h
    obtain ⟨_, -, h⟩ := bind_eq_ok h
    obtain ⟨_, -, h⟩ := bind_eq_ok h
    obtain ⟨text, hPattern, hOp⟩ := bind_eq_ok h
    obtain ⟨rfl, hCompiles⟩ := compiles_of_pattern hPattern
    cases hOp
    exact ⟨rfl, hCompiles⟩
  · cases h

theorem parseReplace_wellFormed (h : parseReplace py a raw = .ok op) : opName op = "replace" ∧ WellFormed py op := by
  unfold parseReplace at h
  split at h
  · obtain ⟨_, -, h⟩ := bind_eq_ok h
    obtain ⟨find, -, h⟩ := bind_eq_ok h
    obtain ⟨with_, -, h⟩ := bind_eq_ok h
    obtain ⟨regex, -, h⟩ := bind_eq_ok h
    obtain ⟨_, -, h⟩ := bind_eq_ok h
    split at h
    · obtain ⟨text, hPattern, hOp⟩ := bind_eq_ok h
      obtain ⟨rfl, hCompiles⟩ := compiles_of_pattern hPattern
      cases hOp
      exact ⟨rfl, fun _ => hCompiles⟩
    · rename_i hLiteral
      obtain ⟨_, -, h⟩ := bind_eq_ok h
      cases h
      exact ⟨rfl, fun hRegex => absurd hRegex hLiteral⟩
  · cases h

theorem parseSubstring_wellFormed (h : parseSubstring a raw = .ok op) :
    opName op = "substring" ∧ WellFormed py op := by
  unfold parseSubstring at h
  split at h
  · obtain ⟨_, -, h⟩ := bind_eq_ok h
    obtain ⟨_, -, h⟩ := bind_eq_ok h
    obtain ⟨_, -, h⟩ := bind_eq_ok h
    split at h
    · cases h
      exact ⟨rfl, trivial⟩
    · cases h
  · cases h

theorem parseArgs_wellFormed {name : String} (h : parseArgs py a raw name = .ok op) :
    opName op = name ∧ WellFormed py op := by
  unfold parseArgs at h
  split at h
  · exact parseSplit_wellFormed h
  · unfold parseJoin at h
    split at h
    · cases h
      exact ⟨rfl, trivial⟩
    · cases h
  · exact parseFilter_wellFormed h
  · exact parsePick_wellFormed h
  · exact parseSort_wellFormed h
  · exact parseRegex_wellFormed h
  · exact parseReplace_wellFormed h
  · exact parseSubstring_wellFormed h
  · unfold parseCase at h
    split at h
    · cases h
      exact ⟨rfl, trivial⟩
    · cases h
      exact ⟨rfl, trivial⟩
    · cases h
  · cases h

end Parsers

/-! ## Names -/

def Known (name : String) : Prop := (get signatures name).isSome = true

theorem parseOne_named {raw : Val} {position : Nat} {defer : Bool} {name : String} {op : Option EvalOp}
    (h : parseOne py raw position defer = .ok (name, op)) : rawName raw = name ∧ Known name := by
  rw [parseOne] at h
  split at h
  · cases h
  rename_i found arg isBare hParts
  have hRaw : rawName raw = found := by
    cases raw with
    | str text =>
      cases hParts
      rfl
    | dict items =>
      rcases items with _ | ⟨_, _ | _⟩
      · cases hParts
      · cases hParts
        rfl
      · cases hParts
    | _ => cases hParts
  dsimp only at h
  split at h
  · cases h
  rename_i hKnown
  have hFound : Known found := Option.isSome_iff_ne_none.mpr (by simpa using hKnown)
  split at h
  · cases h
  split at h
  · split at h
    · cases h
      exact ⟨hRaw, hFound⟩
    · cases h
  split at h
  · cases h
    exact ⟨hRaw, hFound⟩
  · cases h
    exact ⟨hRaw, hFound⟩
  · cases h

theorem parseOne_wellFormed {raw : Val} {position : Nat} {defer : Bool} {name : String} {op : EvalOp}
    (h : parseOne py raw position defer = .ok (name, some op)) : opName op = name ∧ WellFormed py op := by
  rw [parseOne] at h
  split at h
  · cases h
  dsimp only at h
  split at h
  · cases h
  split at h
  · cases h
  split at h
  · rename_i bare hBare
    split at h
    · cases h
      have hMem := get_mem hBare
      simp only [bareOps, List.mem_cons, Prod.mk.injEq, List.not_mem_nil, or_false] at hMem
      obtain ⟨rfl, rfl⟩ | ⟨rfl, rfl⟩ | ⟨rfl, rfl⟩ | ⟨rfl, rfl⟩ | ⟨rfl, rfl⟩ := hMem
      all_goals exact ⟨rfl, trivial⟩
    · cases h
  split at h
  · rename_i hParsed
    cases h
    exact parseArgs_wellFormed hParsed
  · cases h
  · cases h

theorem parseAll_named {defer : Bool} {raws : List Val} {position : Nat} {parsed : List (String × Option EvalOp)}
    (h : parseAll py defer position raws = .ok parsed) :
    parsed.map Prod.fst = raws.map rawName ∧ ∀ raw ∈ raws, Known (rawName raw) := by
  induction raws generalizing position parsed with
  | nil =>
    cases h
    exact ⟨rfl, List.forall_mem_nil _⟩
  | cons raw raws ih =>
    rw [parseAll] at h
    obtain ⟨⟨name, op⟩, hFirst, h⟩ := bind_eq_ok h
    obtain ⟨rest, hRest, h⟩ := bind_eq_ok h
    cases h
    obtain ⟨hName, hKnown⟩ := parseOne_named hFirst
    obtain ⟨hNames, hAll⟩ := ih hRest
    refine ⟨?_, List.forall_mem_cons.mpr ⟨hName ▸ hKnown, hAll⟩⟩
    rw [List.map_cons, List.map_cons, hNames, hName]

theorem checkOps_named {raws : List Val} {kind : ValueKind} (h : checkOps py raws = .ok kind) :
    typeFlow (raws.map rawName) = .ok kind ∧ ∀ raw ∈ raws, Known (rawName raw) := by
  rw [checkOps] at h
  split at h
  · cases h
  obtain ⟨parsed, hParsed, h⟩ := bind_eq_ok h
  obtain ⟨hNames, hKnown⟩ := parseAll_named hParsed
  exact ⟨hNames ▸ h, hKnown⟩

theorem rawName_interpolate {bindings : List (String × String)} {raw : Val} (h : Known (rawName raw)) :
    rawName (interpolate bindings raw) = rawName raw := by
  cases raw with
  | str text =>
    obtain ⟨kinds, hKinds⟩ := Option.isSome_iff_exists.mp h
    have hMem := get_mem hKinds
    simp only [signatures, List.mem_cons, Prod.mk.injEq, List.not_mem_nil, or_false, rawName] at hMem
    obtain h | h | h | h | h | h | h | h | h | h | h | h | h | h := hMem
    all_goals
      obtain ⟨rfl, -⟩ := h
      rfl
  | dict items =>
    cases items with
    | nil => rfl
    | cons item items => rfl
  | _ => rfl

theorem Parses.named {raws : List Val} {ops : List EvalOp} {position : Nat} (h : Parses py position raws ops) :
    ops.map opName = raws.map rawName ∧ ∀ op ∈ ops, WellFormed py op := by
  induction h with
  | nil => exact ⟨rfl, List.forall_mem_nil _⟩
  | cons hFirst _ ih =>
    obtain ⟨hName, hWell⟩ := parseOne_wellFormed hFirst
    refine ⟨?_, List.forall_mem_cons.mpr ⟨hWell, ih.2⟩⟩
    rw [List.map_cons, List.map_cons, ih.1, hName, (parseOne_named hFirst).1]

theorem LoadedEval.names {spec : LoadedEval py} {bindings : List (String × String)} {source : String}
    {raws : List Val} (h : substituted spec.toEval bindings = .ok (source, raws)) :
    raws.map rawName = spec.ops.map rawName := by
  obtain ⟨-, hKnown⟩ := checkOps_named spec.loads
  rw [(substituted_ok h).2, interpolateAll_eq_map, List.map_map]
  apply List.map_congr_left
  intro raw hMem
  exact rawName_interpolate (hKnown raw hMem)

/-! ## Kinds -/

theorem checked_ok {value value' : Value} {place : Where} (h : checked value place = .ok value') : value' = value := by
  cases value with
  | str text =>
    rw [checked] at h
    split at h
    · cases h
    · cases h
      rfl
  | list items =>
    rw [checked] at h
    split at h
    · cases h
    · cases h
      rfl

theorem checked_not_crash (value : Value) (place : Where) : checked value place ≠ .error .crash := by
  cases value with
  | _ =>
    rw [checked]
    split
    · rintro ⟨⟩
    · rintro ⟨⟩

theorem str_of_map {x : Result String} {value : Value} (h : Value.str <$> x = .ok value) : value.kind = .string := by
  cases x with
  | error e => cases h
  | ok text =>
    cases h
    rfl

theorem list_of_map {x : Result (List String)} {value : Value} (h : Value.list <$> x = .ok value) :
    value.kind = .list := by
  cases x with
  | error e => cases h
  | ok items =>
    cases h
    rfl

/-- An operation that does not fail takes and leaves values of the kinds in the table. -/
theorem apply_kind {value value' : Value} {op : EvalOp} {place : Where} (h : apply py value op place = .ok value') :
    get signatures (opName op) = some (value.kind, value'.kind) := by
  cases op with
  | split by_ regex =>
    cases value with
    | str text => rw [list_of_map h]; rfl
    | list items => cases h
  | join by_ =>
    cases value with
    | str text => cases h
    | list items => cases h; rfl
  | filter kind arg negate =>
    cases value with
    | str text => cases h
    | list items =>
      rw [apply] at h
      split at h
      · obtain ⟨_, -, h⟩ := bind_eq_ok h
        cases h
        rfl
      · cases h
        rfl
  | pick at_ =>
    cases value with
    | str text => cases h
    | list items => rw [str_of_map h]; rfl
  | sort order numeric =>
    cases value with
    | str text => cases h
    | list items => rw [list_of_map h]; rfl
  | regexOp pattern group =>
    cases value with
    | str text => rw [str_of_map h]; rfl
    | list items => cases h
  | replace find with_ regex =>
    cases value with
    | str text => rw [str_of_map h]; rfl
    | list items => cases h
  | substring start end_ =>
    cases value with
    | str text => rw [str_of_map h]; rfl
    | list items => cases h
  | case_ to_ =>
    cases value with
    | str text => cases to_ with
      | _ => cases h; rfl
    | list items => cases to_ with
      | _ => cases h
  | bare name =>
    cases name with
    | json =>
      cases value with
      | str text => rw [list_of_map h]; rfl
      | list items => cases h
    | _ =>
      cases value with
      | _ => cases h <;> rfl

theorem flowFrom_append {kind : ValueKind} {position : Nat} (before after : List String) :
    flowFrom kind position (before ++ after) =
      flowFrom kind position before >>= fun kind => flowFrom kind (position + before.length) after := by
  induction before generalizing kind position with
  | nil => rfl
  | cons name before ih =>
    rw [List.cons_append, flowFrom, flowFrom]
    split
    · rfl
    · split
      · rfl
      · rw [ih, List.length_cons, Nat.add_right_comm, Nat.add_assoc]

theorem flowFrom_cons {kind final : ValueKind} {position : Nat} {name : String} {names : List String}
    (h : flowFrom kind position (name :: names) = .ok final) :
    ∃ gives, get signatures name = some (kind, gives) ∧ flowFrom gives (position + 1) names = .ok final := by
  rw [flowFrom] at h
  split at h
  · cases h
  · rename_i takes gives hSignature
    split at h
    · cases h
    · rename_i hKind
      rw [not_not] at hKind
      exact ⟨gives, hKind ▸ hSignature, h⟩

theorem runFrom_kind {ops : List EvalOp} {position : Nat} {value final : Value} {kind : ValueKind}
    (hFlow : flowFrom value.kind position (ops.map opName) = .ok kind) (hRun : runFrom py position value ops = .ok final) :
    final.kind = kind := by
  induction ops generalizing position value with
  | nil =>
    cases hFlow
    cases hRun
    rfl
  | cons op ops ih =>
    obtain ⟨gives, hSignature, hFlow⟩ := flowFrom_cons hFlow
    rw [runFrom] at hRun
    obtain ⟨next, hApply, hRun⟩ := bind_eq_ok hRun
    obtain ⟨_, hChecked, hRest⟩ := bind_eq_ok hRun
    obtain rfl := checked_ok hChecked
    have hKinds := hSignature.symm.trans (apply_kind hApply)
    obtain ⟨-, rfl⟩ := Prod.mk.inj (Option.some.inj hKinds)
    exact ih hFlow hRest

/-! ## What a run lets through -/

/-- A regular expression whose replacement overflows on the text. -/
def ReplaceOverflows (py : Python) (op : EvalOp) (value : Value) : Prop :=
  ∃ find with_ text pattern, op = .replace find with_ true ∧ value = .str text ∧ py.compile find = .ok pattern ∧
    pattern.sub with_ text = .overflow

theorem compile_of_compiles {pattern : String} (h : Compiles py pattern) (place : Where) :
    ∃ compiled, py.compile pattern = .ok compiled ∧ compile py pattern place = .ok compiled := by
  obtain ⟨compiled, hCompile⟩ := h
  exact ⟨compiled, hCompile, by rw [compile, hCompile]⟩

theorem str_map_crash {x : Result String} : Value.str <$> x = .error .crash ↔ x = .error .crash := by
  cases x with
  | error e => exact ⟨fun h => by cases h; rfl, fun h => by cases h; rfl⟩
  | ok text => exact ⟨nofun, nofun⟩

theorem list_map_crash {x : Result (List String)} : Value.list <$> x = .error .crash ↔ x = .error .crash := by
  cases x with
  | error e => exact ⟨fun h => by cases h; rfl, fun h => by cases h; rfl⟩
  | ok items => exact ⟨nofun, nofun⟩

theorem splitText_not_crash {text by_ : String} {regex : Bool} {place : Where} (hNe : by_ ≠ "")
    (hCompiles : regex = true → Compiles py by_) : splitText py text by_ regex place ≠ .error .crash := by
  rw [splitText]
  cases regex with
  | false =>
    rw [Bool.not_false, if_pos rfl, if_neg hNe]
    exact nofun
  | true =>
    obtain ⟨compiled, -, hCompile⟩ := compile_of_compiles (hCompiles rfl) place
    rw [Bool.not_true, if_neg Bool.false_ne_true, hCompile]
    exact nofun

theorem sortItems_not_crash {items : List String} {order : SortOrder} {numeric : Bool} {place : Where} :
    sortItems items order numeric place ≠ .error .crash := by
  have hNumbers : (items.mapM fun item => number item place) ≠ .error .crash := by
    intro h
    obtain ⟨item, -, hItem⟩ := exists_of_mapM_error h
    rw [number] at hItem
    split at hItem
    · cases hItem
    · cases hItem
  rw [sortItems]
  cases numeric with
  | false => exact nofun
  | true =>
    rw [if_pos rfl]
    cases hKeys : items.mapM fun item => number item place with
    | ok keys => exact nofun
    | error e =>
      intro h
      cases h
      exact hNumbers hKeys

theorem pick_not_crash {items : List String} {at_ : PickAt} {place : Where} :
    pick items at_ place ≠ .error .crash := by
  unfold pick
  split
  all_goals
    dsimp only
    split
    · rintro ⟨⟩
    · rintro ⟨⟩

theorem regexText_not_crash {text pattern : String} {group : Nat} {place : Where} (hCompiles : Compiles py pattern) :
    regexText py text pattern group place ≠ .error .crash := by
  obtain ⟨compiled, -, hCompile⟩ := compile_of_compiles hCompiles place
  rw [regexText, hCompile]
  intro h
  dsimp only [bind, Except.bind] at h
  split at h
  · cases h
  · split at h
    · cases h
    · cases h

theorem replaceText_crash_iff {text find with_ : String} {regex : Bool} {place : Where}
    (hCompiles : regex = true → Compiles py find) : replaceText py text find with_ regex place = .error .crash ↔
      regex = true ∧ ∃ pattern, py.compile find = .ok pattern ∧ pattern.sub with_ text = .overflow := by
  rw [replaceText]
  cases regex with
  | false => exact ⟨nofun, nofun⟩
  | true =>
    obtain ⟨compiled, hPattern, hCompile⟩ := compile_of_compiles (hCompiles rfl) place
    rw [Bool.not_true, if_neg Bool.false_ne_true, hCompile, hPattern]
    simp only [bind, Except.bind, ReResult.ok.injEq, exists_eq_left', true_and]
    cases compiled.sub with_ text with
    | overflow => exact ⟨fun _ => rfl, fun _ => rfl⟩
    | _ => exact ⟨nofun, nofun⟩

/-- On a value of its kind an operation that is well formed lets nothing through but what a replacement raises. -/
theorem apply_crash_iff {value : Value} {op : EvalOp} {place : Where} {gives : ValueKind} (hWell : WellFormed py op)
    (hTakes : get signatures (opName op) = some (value.kind, gives)) :
    apply py value op place = .error .crash ↔ ReplaceOverflows py op value := by
  have hNo {x : Result Value} (hx : x ≠ .error .crash) (hOp : ∀ find with_, op ≠ .replace find with_ true) :
      x = .error .crash ↔ ReplaceOverflows py op value := by
    refine ⟨fun h => absurd h hx, ?_⟩
    rintro ⟨find, with_, _, _, hReplace, -⟩
    exact absurd hReplace (hOp find with_)
  cases op with
  | split by_ regex =>
    cases value with
    | str text => exact hNo (fun h => splitText_not_crash hWell.1 hWell.2 (list_map_crash.mp h)) fun _ _ => by rintro ⟨⟩
    | list items => cases hTakes
  | join by_ =>
    cases value with
    | str text => cases hTakes
    | list items => exact hNo (by rintro ⟨⟩) fun _ _ => by rintro ⟨⟩
  | filter kind arg negate =>
    cases value with
    | str text => cases hTakes
    | list items =>
      refine hNo (fun h => ?_) fun _ _ => by rintro ⟨⟩
      rw [apply] at h
      split at h
      · rename_i hMatches
        obtain ⟨compiled, -, hCompile⟩ := compile_of_compiles (hWell hMatches) place
        rw [hCompile] at h
        cases h
      · cases h
  | pick at_ =>
    cases value with
    | str text => cases hTakes
    | list items =>
      exact hNo (fun h => pick_not_crash (str_map_crash.mp h)) fun _ _ => by rintro ⟨⟩
  | sort order numeric =>
    cases value with
    | str text => cases hTakes
    | list items => exact hNo (fun h => sortItems_not_crash (list_map_crash.mp h)) fun _ _ => by rintro ⟨⟩
  | regexOp pattern group =>
    cases value with
    | str text => exact hNo (fun h => regexText_not_crash hWell (str_map_crash.mp h)) fun _ _ => by rintro ⟨⟩
    | list items => cases hTakes
  | replace find with_ regex =>
    cases value with
    | str text =>
      refine str_map_crash.trans ((replaceText_crash_iff hWell).trans ?_)
      constructor
      · rintro ⟨rfl, pattern, hPattern, hSub⟩
        exact ⟨find, with_, text, pattern, rfl, rfl, hPattern, hSub⟩
      · rintro ⟨_, _, _, pattern, hOp, hValue, hPattern, hSub⟩
        cases hOp
        cases hValue
        exact ⟨rfl, pattern, hPattern, hSub⟩
    | list items => cases hTakes
  | substring start end_ =>
    cases value with
    | str text =>
      refine hNo (fun h => ?_) fun _ _ => by rintro ⟨⟩
      have h := str_map_crash.mp h
      rw [substringText] at h
      split at h
      · cases h
      · cases h
    | list items => cases hTakes
  | case_ to_ =>
    cases value with
    | str text => cases to_ with
      | _ => exact hNo (by rintro ⟨⟩) fun _ _ => by rintro ⟨⟩
    | list items => cases hTakes
  | bare name =>
    cases name with
    | json =>
      cases value with
      | str text =>
        refine hNo (fun h => ?_) fun _ _ => by rintro ⟨⟩
        have h := list_map_crash.mp h
        rw [parseJson] at h
        split at h
        · cases h
        · cases h
      | list items => cases hTakes
    | trim =>
      cases value with
      | str text => exact hNo (by rintro ⟨⟩) fun _ _ => by rintro ⟨⟩
      | list items => cases hTakes
    | _ =>
      cases value with
      | str text => cases hTakes
      | list items => exact hNo (by rintro ⟨⟩) fun _ _ => by rintro ⟨⟩

/-- A run lets through what a replacement raises that it comes to, and nothing else. -/
theorem runFrom_crash_iff {ops : List EvalOp} {position : Nat} {value : Value} {kind : ValueKind}
    (hWell : ∀ op ∈ ops, WellFormed py op) (hFlow : flowFrom value.kind position (ops.map opName) = .ok kind) :
    runFrom py position value ops = .error .crash ↔ ∃ before op after reached, ops = before ++ op :: after ∧
      runFrom py position value before = .ok reached ∧ ReplaceOverflows py op reached := by
  induction ops generalizing position value with
  | nil =>
    refine ⟨(by rintro ⟨⟩), ?_⟩
    rintro ⟨before, op, after, _, hEq, -⟩
    cases before with
    | _ => cases hEq
  | cons op ops ih =>
    obtain ⟨gives, hSignature, hFlow⟩ := flowFrom_cons hFlow
    obtain ⟨hOp, hWell⟩ := List.forall_mem_cons.mp hWell
    have hCrash := @apply_crash_iff py value op (.op position (opName op)) gives hOp hSignature
    have hLater {P : Prop} (hNot : apply py value op (.op position (opName op)) ≠ .error .crash)
        (h : ∀ before op' after reached, ops = before ++ op' :: after →
          runFrom py position value (op :: before) = .ok reached → ReplaceOverflows py op' reached → P) :
        (∃ before op' after reached, op :: ops = before ++ op' :: after ∧
          runFrom py position value before = .ok reached ∧ ReplaceOverflows py op' reached) → P := by
      rintro ⟨before, op', after, reached, hEq, hRun, hOverflows⟩
      cases before with
      | nil =>
        cases hEq
        cases hRun
        exact absurd (hCrash.mpr hOverflows) hNot
      | cons _ before =>
        cases hEq
        exact h before op' after reached rfl hRun hOverflows
    rw [runFrom]
    cases hApply : apply py value op (.op position (opName op)) with
    | error e =>
      constructor
      · intro h
        cases h
        exact ⟨[], op, ops, value, rfl, rfl, hCrash.mp hApply⟩
      · intro h
        cases e with
        | crash => rfl
        | evalOp error =>
          refine hLater (by rw [hApply]; rintro ⟨⟩) (fun before op' after reached _ hRun _ => ?_) h
          rw [runFrom, hApply] at hRun
          cases hRun
    | ok next =>
      have hNot : apply py value op (.op position (opName op)) ≠ .error .crash := by
        rw [hApply]
        rintro ⟨⟩
      have hKinds := hSignature.symm.trans (apply_kind hApply)
      obtain ⟨-, rfl⟩ := Prod.mk.inj (Option.some.inj hKinds)
      cases hChecked : checked next (.op position (opName op)) with
      | error e =>
        have hStops (before : List EvalOp) : runFrom py position value (op :: before) = .error e := by
          rw [runFrom, hApply]
          dsimp only [bind, Except.bind]
          rw [hChecked]
        constructor
        · intro h
          dsimp only [bind, Except.bind] at h
          rw [hChecked] at h
          cases h
          exact absurd hChecked (checked_not_crash _ _)
        · refine hLater hNot fun before op' after reached _ hRun _ => ?_
          cases (hStops before).symm.trans hRun
      | ok _ =>
        obtain rfl := (checked_ok hChecked).symm
        have hNext (before : List EvalOp) :
            runFrom py position value (op :: before) = runFrom py (position + 1) next before := by
          rw [runFrom, hApply]
          dsimp only [bind, Except.bind]
          rw [hChecked]
        have hRun : (do
            let value ← Except.ok next
            let value ← checked value (.op position (opName op))
            runFrom py (position + 1) value ops) = runFrom py (position + 1) next ops := by
          dsimp only [bind, Except.bind]
          rw [hChecked]
        rw [hRun, ih hWell hFlow]
        constructor
        · rintro ⟨before, op', after, reached, rfl, hReached, hOverflows⟩
          exact ⟨op :: before, op', after, reached, rfl, by rwa [hNext], hOverflows⟩
        · refine hLater hNot fun before op' after reached hEq hReached hOverflows => ?_
          exact ⟨before, op', after, reached, hEq, by rwa [hNext] at hReached, hOverflows⟩

/-! ## What a parse lets through -/

/-- The parser comes to an operation whose argument overflows. -/
def OverflowsFrom (py : Python) (defer : Bool) (position : Nat) (raws : List Val) : Prop :=
  ∃ before raw after parsed, raws = before ++ raw :: after ∧ parseAll py defer position before = .ok parsed ∧
    OpOverflows py defer (position + before.length) raw

theorem parseAll_crash_iff {defer : Bool} {raws : List Val} {position : Nat} :
    parseAll py defer position raws = .error .crash ↔ OverflowsFrom py defer position raws := by
  induction raws generalizing position with
  | nil =>
    refine ⟨nofun, ?_⟩
    rintro ⟨before, raw, after, _, hEq, -⟩
    cases before with
    | _ => cases hEq
  | cons raw raws ih =>
    have hAll (raws : List Val) : parseAll py defer position (raw :: raws) = (do
        let first ← parseOne py raw position defer
        let rest ← parseAll py defer (position + 1) raws
        return first :: rest) := rfl
    constructor
    · intro h
      rw [hAll] at h
      cases hFirst : parseOne py raw position defer with
      | error e =>
        rw [hFirst] at h
        cases h
        exact ⟨[], raw, raws, [], rfl, rfl, parseOne_crash_iff.mp hFirst⟩
      | ok first =>
        cases hRest : parseAll py defer (position + 1) raws with
        | ok rest =>
          rw [hFirst, hRest] at h
          cases h
        | error e =>
          rw [hFirst, hRest] at h
          cases h
          obtain ⟨before, raw', after, parsed, rfl, hBefore, hOverflows⟩ := ih.mp hRest
          refine ⟨raw :: before, raw', after, first :: parsed, rfl, ?_, ?_⟩
          · rw [hAll, hFirst, hBefore]
            rfl
          · rwa [List.length_cons, Nat.add_comm before.length, ← Nat.add_assoc]
    · rintro ⟨before, raw', after, parsed, hEq, hBefore, hOverflows⟩
      rw [hAll]
      cases before with
      | nil =>
        cases hEq
        rw [show parseOne py raw position defer = .error .crash from parseOne_crash_iff.mpr hOverflows]
        rfl
      | cons _ before =>
        cases hEq
        rw [hAll] at hBefore
        obtain ⟨first, hFirst, hBefore⟩ := bind_eq_ok hBefore
        obtain ⟨rest, hRest, -⟩ := bind_eq_ok hBefore
        rw [List.length_cons, Nat.add_comm before.length, ← Nat.add_assoc] at hOverflows
        rw [hFirst, ih.mpr ⟨before, raw', after, rest, rfl, hRest, hOverflows⟩]
        rfl

theorem flowFrom_not_crash {names : List String} {kind : ValueKind} {position : Nat}
    (hKnown : ∀ name ∈ names, Known name) : flowFrom kind position names ≠ .error .crash := by
  induction names generalizing kind position with
  | nil => exact nofun
  | cons name names ih =>
    obtain ⟨hName, hKnown⟩ := List.forall_mem_cons.mp hKnown
    rw [flowFrom]
    split
    · rename_i hNone
      rw [Known, hNone] at hName
      cases hName
    · split
      · exact nofun
      · exact ih hKnown

theorem checkOps_crash_iff {raws : List Val} : checkOps py raws = .error .crash ↔ OverflowsFrom py true 1 raws := by
  rw [← parseAll_crash_iff, checkOps]
  split
  · rename_i hNone
    rw [hNone]
    exact ⟨nofun, nofun⟩
  · cases hParsed : parseAll py true 1 raws with
    | error e =>
      constructor
      · intro h
        cases h
        rfl
      · intro h
        cases h
        rfl
    | ok parsed =>
      refine ⟨fun h => ?_, nofun⟩
      obtain ⟨hNames, hKnown⟩ := parseAll_named hParsed
      have hFlow : typeFlow (parsed.map Prod.fst) = .error .crash := h
      rw [hNames] at hFlow
      exact absurd hFlow (flowFrom_not_crash (List.forall_mem_map.mpr hKnown))

theorem parsed_of_parseAll {raws : List Val} {position : Nat} {parsed : List (String × Option EvalOp)}
    (h : parseAll py false position raws = .ok parsed) : ∀ op ∈ parsed, ∃ found, op.2 = some found := by
  induction raws generalizing position parsed with
  | nil =>
    cases h
    exact List.forall_mem_nil _
  | cons raw raws ih =>
    rw [parseAll] at h
    obtain ⟨⟨name, op⟩, hFirst, h⟩ := bind_eq_ok h
    obtain ⟨rest, hRest, h⟩ := bind_eq_ok h
    cases h
    exact List.forall_mem_cons.mpr ⟨parsed_of_parseOne hFirst, ih hRest⟩

theorem parseOps_crash_iff {raws : List Val} : parseOps py raws = .error .crash ↔
    OverflowsFrom py true 1 raws ∨ (∃ kind, checkOps py raws = .ok kind) ∧ OverflowsFrom py false 1 raws := by
  rw [← checkOps_crash_iff, ← parseAll_crash_iff, parseOps]
  cases hCheck : checkOps py raws with
  | error e =>
    constructor
    · intro h
      cases h
      exact .inl rfl
    · rintro (h | ⟨⟨_, h⟩, -⟩)
      · cases h
        rfl
      · cases h
  | ok kind =>
    cases hParsed : parseAll py false 1 raws with
    | error e =>
      constructor
      · intro h
        cases h
        exact .inr ⟨⟨kind, rfl⟩, rfl⟩
      · rintro (h | ⟨-, h⟩)
        · cases h
        · cases h
          rfl
    | ok parsed =>
      constructor
      · intro h
        obtain ⟨op, hMem, hOp⟩ := exists_of_mapM_error (show _ = Except.error Raised.crash from h)
        obtain ⟨found, hFound⟩ := parsed_of_parseAll hParsed op hMem
        rw [hFound] at hOp
        cases hOp
      · rintro (h | ⟨-, h⟩)
        · cases h
        · cases h

/-! ## The step -/

/-- An index text of the substituted arguments is too long for `int`, a pattern makes `re.compile` raise something other
than `re.error`, or a replacement `sub`: the step comes to it. -/
inductive Overflows (py : Python) (spec : Eval) (bindings : List (String × String)) : Prop
  | check {source : String} {raws : List Val} (hBound : substituted spec bindings = .ok (source, raws))
    (hArgument : OverflowsFrom py true 1 raws)
  | parse {source : String} {raws : List Val} {kind : ValueKind} (hBound : substituted spec bindings = .ok (source, raws))
    (hChecked : checkOps py raws = .ok kind) (hArgument : OverflowsFrom py false 1 raws)
  | replace {source : String} {raws : List Val} {before after : List EvalOp} {op : EvalOp} {reached : Value}
    (hBound : substituted spec bindings = .ok (source, raws)) (hParsed : parseOps py raws = .ok (before ++ op :: after))
    (hReached : runOps py source before = .ok reached) (hReplace : ReplaceOverflows py op reached)

theorem LoadedEval.pipeline {spec : LoadedEval py} {bindings : List (String × String)} {source : String}
    {raws : List Val} {ops : List EvalOp} (hBound : substituted spec.toEval bindings = .ok (source, raws))
    (hParsed : parseOps py raws = .ok ops) :
    ops.map opName = spec.ops.map rawName ∧ typeFlow (ops.map opName) = .ok spec.kind ∧ ∀ op ∈ ops, WellFormed py op := by
  obtain ⟨hNames, hWell⟩ := (parses_of_parseOps hParsed).named
  have hSame := hNames.trans (spec.names hBound)
  exact ⟨hSame, hSame ▸ (checkOps_named spec.loads).1, hWell⟩

theorem runOps_of_checked {source : String} {value : Value} (hChecked : checked (.str source) .from_ = .ok value)
    (ops : List EvalOp) : runOps py source ops = runFrom py 1 (.str source) ops := by
  obtain rfl := checked_ok hChecked
  rw [runOps, hChecked]
  rfl

theorem runOps_kind {source : String} {ops : List EvalOp} {kind : ValueKind} {final : Value}
    (hFlow : typeFlow (ops.map opName) = .ok kind) (hRun : runOps py source ops = .ok final) : final.kind = kind := by
  obtain ⟨value, hChecked, -⟩ := bind_eq_ok hRun
  rw [runOps_of_checked hChecked] at hRun
  have hFirst : flowFrom (Value.str source).kind 1 (ops.map opName) = .ok kind := hFlow
  exact runFrom_kind hFirst hRun

theorem runOps_crash_iff {source : String} {ops : List EvalOp} {kind : ValueKind}
    (hFlow : typeFlow (ops.map opName) = .ok kind) (hWell : ∀ op ∈ ops, WellFormed py op) :
    runOps py source ops = .error .crash ↔ ∃ before op after reached, ops = before ++ op :: after ∧
      runOps py source before = .ok reached ∧ ReplaceOverflows py op reached := by
  cases hChecked : checked (.str source) .from_ with
  | error e =>
    have hStops (ops : List EvalOp) : runOps py source ops = .error e := by
      rw [runOps, hChecked]
      rfl
    constructor
    · intro h
      cases (hStops ops).symm.trans h
      exact absurd hChecked (checked_not_crash _ _)
    · rintro ⟨before, _, _, _, -, hReached, -⟩
      cases (hStops before).symm.trans hReached
  | ok value =>
    simp only [runOps_of_checked hChecked]
    exact runFrom_crash_iff hWell hFlow

theorem substituted_not_crash (spec : Eval) (bindings : List (String × String)) :
    substituted spec bindings ≠ .error .crash := by
  rw [substituted]
  split
  · rintro ⟨⟩
  · rintro ⟨⟩

theorem assign_not_crash {into : EvalTarget} {result : Value}
    (h : ∀ names named, into = .vars names named → result.kind = .list) : assign py into result ≠ .error .crash := by
  cases into with
  | var name => rintro ⟨⟩
  | vars names named =>
    cases result with
    | str text => cases h names named rfl
    | list items =>
      rw [assign]
      split
      · rintro ⟨⟩
      · rintro ⟨⟩

/-- A step that loads lets nothing through but what an argument or a replacement raises that overflows. -/
theorem evaluate_crash_iff {spec : LoadedEval py} {bindings : List (String × String)} :
    evaluate py spec.toEval bindings = .error .crash ↔ Overflows py spec.toEval bindings := by
  rw [evaluate]
  constructor
  · intro h
    obtain hBound | ⟨⟨source, raws⟩, hBound, h⟩ := bind_eq_error.mp h
    · exact absurd hBound (substituted_not_crash _ _)
    obtain hParsed | ⟨ops, hParsed, h⟩ := bind_eq_error.mp h
    · obtain hCheck | ⟨⟨kind, hChecked⟩, hParse⟩ := parseOps_crash_iff.mp hParsed
      · exact .check hBound hCheck
      · exact .parse hBound hChecked hParse
    obtain ⟨-, hFlow, hWell⟩ := spec.pipeline hBound hParsed
    obtain hRun | ⟨final, hRun, h⟩ := bind_eq_error.mp h
    · obtain ⟨before, op, after, reached, rfl, hReached, hReplace⟩ := (runOps_crash_iff hFlow hWell).mp hRun
      exact .replace hBound hParsed hReached hReplace
    · refine absurd h (assign_not_crash fun names named hInto => ?_)
      exact (runOps_kind hFlow hRun).trans (spec.spread names named hInto)
  · intro h
    cases h with
    | check hBound hArgument =>
      refine bind_eq_error.mpr (.inr ⟨_, hBound, bind_eq_error.mpr (.inl ?_)⟩)
      exact parseOps_crash_iff.mpr (.inl hArgument)
    | parse hBound hChecked hArgument =>
      refine bind_eq_error.mpr (.inr ⟨_, hBound, bind_eq_error.mpr (.inl ?_)⟩)
      exact parseOps_crash_iff.mpr (.inr ⟨⟨_, hChecked⟩, hArgument⟩)
    | replace hBound hParsed hReached hReplace =>
      obtain ⟨-, hFlow, hWell⟩ := spec.pipeline hBound hParsed
      refine bind_eq_error.mpr (.inr ⟨_, hBound, bind_eq_error.mpr (.inr ⟨_, hParsed, bind_eq_error.mpr (.inl ?_)⟩)⟩)
      exact (runOps_crash_iff hFlow hWell).mpr ⟨_, _, _, _, rfl, hReached, hReplace⟩

/-- What a step that loads is held to: a value for every output or an `EvalOpError`, every operation a value of the kind
that the check of the written step has there, and the variables written all or none. -/
structure GoesRight (py : Python) (spec : Eval) (bindings : List (String × String)) : Prop where
  total : (∃ items, evaluate py spec bindings = .ok items ∧ items.map Prod.fst = spec.into.names.map varKey) ∨
    ∃ error, evaluate py spec bindings = .error (.evalOp error)
  kinds : ∀ source raws before op after reached, substituted spec bindings = .ok (source, raws) →
    parseOps py raws = .ok (before ++ op :: after) → runOps py source before = .ok reached →
      typeFlow ((spec.ops.map rawName).take before.length) = .ok reached.kind ∧
        ∃ gives, get signatures (opName op) = some (reached.kind, gives)
  written : (doEval py spec bindings).2 = bindings ∨
    ∀ name ∈ spec.into.names, ∃ items value, evaluate py spec bindings = .ok items ∧ (varKey name, value) ∈ items ∧
      get (doEval py spec bindings).2 (varKey name) = some value

theorem LoadedEval.kinds {spec : LoadedEval py} {bindings : List (String × String)} {source : String}
    {raws : List Val} {before after : List EvalOp} {op : EvalOp} {reached : Value}
    (hBound : substituted spec.toEval bindings = .ok (source, raws))
    (hParsed : parseOps py raws = .ok (before ++ op :: after)) (hRun : runOps py source before = .ok reached) :
    typeFlow ((spec.ops.map rawName).take before.length) = .ok reached.kind ∧
      ∃ gives, get signatures (opName op) = some (reached.kind, gives) := by
  obtain ⟨hNames, hFlow, -⟩ := spec.pipeline hBound hParsed
  rw [← hNames, List.map_append, List.take_left' (List.length_map _)]
  rw [List.map_append, typeFlow, flowFrom_append] at hFlow
  obtain ⟨kind, hBefore, hAfter⟩ := bind_eq_ok hFlow
  obtain rfl := runOps_kind hBefore hRun
  obtain ⟨gives, hSignature, -⟩ := flowFrom_cons hAfter
  exact ⟨hBefore, gives, hSignature⟩

theorem get_update_mem {items : List (String × String)} {key : String} (h : key ∈ items.map Prod.fst)
    (bindings : List (String × String)) : ∃ value, (key, value) ∈ items ∧ get (update bindings items) key = some value := by
  induction items generalizing bindings with
  | nil => cases h
  | cons item items ih =>
    by_cases hRest : key ∈ items.map Prod.fst
    · obtain ⟨value, hMem, hGet⟩ := ih hRest (PyValue.set bindings item.1 item.2)
      exact ⟨value, List.mem_cons_of_mem _ hMem, hGet⟩
    · obtain rfl : key = item.1 := by simpa [hRest] using h
      refine ⟨item.2, List.mem_cons_self, ?_⟩
      rw [update_cons, get_update_of_not_mem hRest, get_set_self]

theorem doEval_written (py : Python) (spec : Eval) (bindings : List (String × String)) :
    (doEval py spec bindings).2 = bindings ∨
      ∀ name ∈ spec.into.names, ∃ items value, evaluate py spec bindings = .ok items ∧ (varKey name, value) ∈ items ∧
        get (doEval py spec bindings).2 (varKey name) = some value := by
  rw [doEval]
  cases hEvaluate : evaluate py spec bindings with
  | error e => exact .inl rfl
  | ok items =>
    right
    intro name hName
    have hKey : varKey name ∈ items.map Prod.fst := by
      rw [keys_evaluate hEvaluate]
      exact List.mem_map_of_mem hName
    obtain ⟨value, hMem, hGet⟩ := get_update_mem hKey bindings
    exact ⟨items, value, rfl, hMem, hGet⟩

/-- A step that loads goes right exactly when nothing overflows that it comes to. -/
theorem eval_goes_right_iff (py : Python) (spec : LoadedEval py) (bindings : List (String × String)) :
    GoesRight py spec.toEval bindings ↔ ¬Overflows py spec.toEval bindings := by
  rw [← evaluate_crash_iff]
  constructor
  · intro h hCrash
    obtain ⟨items, hItems, -⟩ | ⟨error, hError⟩ := h.total
    · cases hCrash.symm.trans hItems
    · cases hCrash.symm.trans hError
  · intro hNot
    refine ⟨?_, fun _ _ _ _ _ _ => LoadedEval.kinds, doEval_written py _ bindings⟩
    cases hEvaluate : evaluate py spec.toEval bindings with
    | ok items => exact .inl ⟨items, rfl, keys_evaluate hEvaluate⟩
    | error e =>
      cases e with
      | evalOp error => exact .inr ⟨error, rfl⟩
      | crash => exact absurd hEvaluate hNot

/-- `re.compile` on one pattern whose count is too large. -/
def countingPython : Python :=
  { plainPython with compile := fun pattern => if pattern = "a\x7b4294967296\x7d" then .overflow else .error }

/-- A step whose pattern is bound when it runs. -/
def boundPattern : LoadedEval countingPython where
  from_ := "aaa"
  ops := [.dict [("regex", .dict [("pattern", .str "$\x7bvars.p\x7d")])]]
  into := .var "v"
  kind := .string
  loads := by decide +kernel
  spread := nofun

theorem bound_pattern_overflows : ¬∀ (py : Python) (spec : LoadedEval py) (bindings : List (String × String)),
    GoesRight py spec.toEval bindings := by
  intro hAll
  have hTotal := (hAll countingPython boundPattern [("vars.p", "a\x7b4294967296\x7d")]).total
  have hCrash : evaluate countingPython boundPattern.toEval [("vars.p", "a\x7b4294967296\x7d")] = .error .crash := by
    decide +kernel
  rw [hCrash] at hTotal
  obtain ⟨_, h, -⟩ | ⟨_, h⟩ := hTotal
  · cases h
  · cases h

end Bajutsu.Orchestrator.EvalStep
