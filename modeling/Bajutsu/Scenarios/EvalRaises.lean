import Bajutsu.Scenarios.EvalOps

/-!
# What the parser of an operation lets through

The parser answers a bad argument with an `EvalOpError`. It does not catch what `int` raises on a text that is longer
than its limit, and of what `re.compile` raises only `re.error`.
-/

namespace Bajutsu.Scenarios

open PyValue

variable {py : Python}

/-- A text of decimal digits that `int` refuses. -/
def longDigits (text : String) : Bool :=
  text ≠ "" && text.toList.all PyText.isDigit && decide (PyText.maxStrDigits < text.toList.length)

/-- The reader of the arguments of an operation. -/
def reader (position : Nat) (defer : Bool) (name : String) (items : List (String × Val)) : Args :=
  ⟨.op position name, items, defer⟩

/-- The argument that is read last is an index that is too long, or a pattern that `re.compile` rejects with another
exception than `re.error`; what is read before it is accepted. -/
inductive OpOverflows (py : Python) (defer : Bool) (position : Nat) : Val → Prop
  | split {items : List (String × Val)} {by_ : String}
    (hOnly : (reader position defer "split" items).only ["by", "regex"] = .ok ())
    (hBy : (reader position defer "split" items).text "by" none = .ok by_)
    (hRegex : (reader position defer "split" items).flag "regex" = .ok true)
    (hDefer : (reader position defer "split" items).deferred (.str by_) = false) (hNe : by_ ≠ "")
    (hCompile : py.compile by_ = .overflow) : OpOverflows py defer position (.dict [("split", .dict items)])
  | filter {items : List (String × Val)} {arg : String} {negate : Bool}
    (hOnly : (reader position defer "filter" items).only (filterKinds.map Prod.snd ++ ["not"]) = .ok ())
    (hKind : (filterKinds.filter fun kind => (get items kind.2).isSome) = [(.matches_, "matches")])
    (hNot : (reader position defer "filter" items).flag "not" = .ok negate)
    (hArg : (reader position defer "filter" items).text "matches" none = .ok arg)
    (hDefer : (reader position defer "filter" items).deferred (.str arg) = false)
    (hCompile : py.compile arg = .overflow) : OpOverflows py defer position (.dict [("filter", .dict items)])
  | pick {text : String} (hLong : longDigits text = true) :
    OpOverflows py defer position (.dict [("pick", .str text)])
  | group {items : List (String × Val)} {text : String}
    (hOnly : (reader position defer "regex" items).only ["pattern", "group"] = .ok ())
    (hGroup : get items "group" = some (.str text)) (hLong : longDigits text = true) :
    OpOverflows py defer position (.dict [("regex", .dict items)])
  | pattern {items : List (String × Val)} {group : Option Nat} {pattern : String}
    (hOnly : (reader position defer "regex" items).only ["pattern", "group"] = .ok ())
    (hGroup : (reader position defer "regex" items).index "group" false = .ok group)
    (hPattern : (reader position defer "regex" items).text "pattern" none = .ok pattern)
    (hDefer : (reader position defer "regex" items).deferred (.str pattern) = false)
    (hCompile : py.compile pattern = .overflow) : OpOverflows py defer position (.dict [("regex", .dict items)])
  | replace {items : List (String × Val)} {find with_ : String}
    (hOnly : (reader position defer "replace" items).only ["find", "with", "regex"] = .ok ())
    (hFind : (reader position defer "replace" items).text "find" none = .ok find)
    (hWith : (reader position defer "replace" items).text "with" none = .ok with_)
    (hRegex : (reader position defer "replace" items).flag "regex" = .ok true)
    (hDeferWith : (reader position defer "replace" items).deferred (.str with_) = false)
    (hDefer : (reader position defer "replace" items).deferred (.str find) = false)
    (hCompile : py.compile find = .overflow) : OpOverflows py defer position (.dict [("replace", .dict items)])
  | start {items : List (String × Val)} {text : String}
    (hOnly : (reader position defer "substring" items).only ["start", "end"] = .ok ())
    (hStart : get items "start" = some (.str text)) (hLong : longDigits text = true) :
    OpOverflows py defer position (.dict [("substring", .dict items)])
  | end_ {items : List (String × Val)} {start : Option Nat} {text : String}
    (hOnly : (reader position defer "substring" items).only ["start", "end"] = .ok ())
    (hStart : (reader position defer "substring" items).index "start" true = .ok start)
    (hEnd : get items "end" = some (.str text)) (hLong : longDigits text = true) :
    OpOverflows py defer position (.dict [("substring", .dict items)])

/-! ## The reads of an argument -/

abbrev Crashes {α : Type} (x : Except Stop α) : Prop := x = .error (.raised .crash)

section Args

variable {a : Args} {α β : Type}

theorem crashes_bind {x : Except Stop α} {f : α → Except Stop β} :
    Crashes (x >>= f) ↔ Crashes x ∨ ∃ value, x = .ok value ∧ Crashes (f value) := bind_eq_error

theorem not_crashes_ok (value : α) : ¬Crashes (.ok value) := nofun

theorem not_crashes_pure (value : α) : ¬Crashes (pure value) := nofun

theorem not_crashes_fail (why : String) : ¬Crashes (a.fail why : Except Stop α) := nofun

theorem not_crashes_only (allowed : List String) : ¬Crashes (a.only allowed) := by
  rw [Args.only]
  split
  · exact nofun
  · exact nofun

theorem not_crashes_deferIfToken (value : Val) : ¬Crashes (a.deferIfToken value) := by
  rw [Args.deferIfToken]
  split
  · exact nofun
  · exact nofun

theorem not_crashes_text (key : String) (default : Option String) : ¬Crashes (a.text key default) := by
  unfold Args.text
  split
  all_goals exact nofun

theorem not_crashes_flag (key : String) : ¬Crashes (a.flag key) := by
  rw [Args.flag]
  split
  all_goals exact nofun

theorem deferIfToken_ok {value : Val} : a.deferIfToken value = .ok () ↔ a.deferred value = false := by
  rw [Args.deferIfToken]
  split
  · rename_i hDeferred
    rw [hDeferred]
    exact ⟨nofun, nofun⟩
  · rename_i hRead
    exact ⟨fun _ => by simpa using hRead, fun _ => rfl⟩

theorem crashes_only {allowed : List String} {f : Unit → Except Stop β} :
    Crashes (a.only allowed >>= f) ↔ a.only allowed = .ok () ∧ Crashes (f ()) := by
  rw [crashes_bind, or_iff_right (not_crashes_only _)]
  exact ⟨fun ⟨_, h⟩ => h, fun h => ⟨(), h⟩⟩

theorem crashes_text {key : String} {default : Option String} {f : String → Except Stop β} :
    Crashes (a.text key default >>= f) ↔ ∃ text, a.text key default = .ok text ∧ Crashes (f text) := by
  rw [crashes_bind, or_iff_right (not_crashes_text _ _)]

theorem crashes_flag {key : String} {f : Bool → Except Stop β} :
    Crashes (a.flag key >>= f) ↔ ∃ value, a.flag key = .ok value ∧ Crashes (f value) := by
  rw [crashes_bind, or_iff_right (not_crashes_flag _)]

theorem crashes_deferIfToken {value : Val} {f : Unit → Except Stop β} :
    Crashes (a.deferIfToken value >>= f) ↔ a.deferred value = false ∧ Crashes (f ()) := by
  rw [crashes_bind, or_iff_right (not_crashes_deferIfToken _), ← deferIfToken_ok]
  exact ⟨fun ⟨_, h⟩ => h, fun h => ⟨(), h⟩⟩

theorem asIndex_crashes {value : Val} {label : String} :
    Crashes (a.asIndex value label) ↔ ∃ text, value = .str text ∧ longDigits text = true := by
  cases value with
  | int i =>
    have hRead : ¬Crashes (a.asIndex (.int i) label) := by
      rw [Args.asIndex]
      split
      · rintro ⟨⟩
      · rintro ⟨⟩
    exact ⟨fun h => absurd h hRead, (by rintro ⟨_, ⟨⟩, _⟩)⟩
  | str text =>
    have hLimit : PyText.intOf text.toList = none ↔ PyText.maxStrDigits < text.toList.length := by
      rw [PyText.intOf]
      split
      · exact ⟨(by rintro ⟨⟩), fun h => by omega⟩
      · exact ⟨fun _ => by omega, fun _ => rfl⟩
    simp only [Val.str.injEq, exists_eq_left', longDigits, Bool.and_eq_true, decide_eq_true_eq]
    rw [Args.asIndex]
    split
    · rename_i hDigits
      rw [← hLimit]
      cases hInt : PyText.intOf text.toList with
      | none => exact ⟨fun _ => ⟨hDigits, rfl⟩, fun _ => rfl⟩
      | some n => exact ⟨(by rintro ⟨⟩), fun h => by cases h.2⟩
    · rename_i hOther
      exact ⟨(by rintro ⟨⟩), fun h => absurd h.1 hOther⟩
  | _ => exact ⟨(by rintro ⟨⟩), (by rintro ⟨_, ⟨⟩, _⟩)⟩

theorem not_deferred_of_longDigits {text : String} (h : longDigits text = true) : a.deferred (.str text) = false := by
  simp only [longDigits, Bool.and_eq_true, List.all_eq_true] at h
  have hStart : hasPlaceholderStart text = false := by
    apply decide_eq_false
    intro hInfix
    have hDollar := h.1.2 '$' (hInfix.subset List.mem_cons_self)
    exact absurd hDollar (by decide)
  rw [Args.deferred, hStart, Bool.and_false]

theorem index_crashes {key : String} {required : Bool} :
    Crashes (a.index key required) ↔ ∃ text, get a.args key = some (.str text) ∧ longDigits text = true := by
  have hRead (value : Val) : Crashes (do
        a.deferIfToken value
        return some (← a.asIndex value ("`" ++ key ++ "`"))) ↔ ∃ text, value = .str text ∧ longDigits text = true := by
    rw [crashes_bind, ← @asIndex_crashes a value ("`" ++ key ++ "`"), crashes_bind]
    constructor
    · rintro (hDefer | ⟨_, -, hIndex | ⟨_, -, hPure⟩⟩)
      · exact absurd hDefer (not_crashes_deferIfToken value)
      · exact hIndex
      · exact absurd hPure (not_crashes_pure _)
    · intro hIndex
      obtain ⟨text, rfl, hLong⟩ := asIndex_crashes.mp hIndex
      exact .inr ⟨(), deferIfToken_ok.mpr (not_deferred_of_longDigits hLong), .inl hIndex⟩
  unfold Args.index
  cases hGet : get a.args key with
  | none =>
    refine ⟨?_, nofun⟩
    cases required with
    | _ => exact nofun
  | some value =>
    simp only [Option.some.injEq]
    cases value with
    | null =>
      refine ⟨?_, nofun⟩
      cases required with
      | _ => exact nofun
    | _ => exact hRead _

theorem pattern_crashes {value label : String} :
    Crashes (a.pattern py value label) ↔ a.deferred (.str value) = false ∧ py.compile value = .overflow := by
  rw [Args.pattern, crashes_bind]
  constructor
  · rintro (hDefer | ⟨_, hRead, hCompile⟩)
    · exact absurd hDefer (not_crashes_deferIfToken _)
    · refine ⟨deferIfToken_ok.mp hRead, ?_⟩
      split at hCompile
      · cases hCompile
      · cases hCompile
      · assumption
  · rintro ⟨hRead, hCompile⟩
    exact .inr ⟨(), deferIfToken_ok.mpr hRead, by rw [hCompile]⟩

end Args

/-! ## The parsers -/

section Parsers

variable {position : Nat} {defer : Bool} {raw : Val}

theorem parseSplit_crashes (h : Crashes (parseSplit py ⟨.op position "split", [], defer⟩ raw)) :
    OpOverflows py defer position (.dict [("split", raw)]) := by
  cases raw with
  | dict items =>
    rw [parseSplit] at h
    simp only [pure_bind, crashes_only, crashes_text, crashes_flag, crashes_deferIfToken] at h
    obtain ⟨hOnly, by_, hBy, regex, hRegex, -, h⟩ := h
    split at h
    · cases h
    rename_i hNe
    cases regex with
    | false => cases h
    | true =>
      obtain hPattern | ⟨_, -, h⟩ := crashes_bind.mp h
      · obtain ⟨hRead, hCompile⟩ := pattern_crashes.mp hPattern
        exact .split hOnly hBy hRegex hRead hNe hCompile
      · cases h
  | str by_ =>
    rw [parseSplit] at h
    simp only [pure_bind, crashes_only, crashes_text, crashes_flag, crashes_deferIfToken] at h
    obtain ⟨-, _, -, regex, hRegex, -, h⟩ := h
    cases hRegex
    split at h
    · cases h
    · cases h
  | _ => cases h

theorem parseFilter_crashes (h : Crashes (parseFilter py ⟨.op position "filter", [], defer⟩ raw)) :
    OpOverflows py defer position (.dict [("filter", raw)]) := by
  cases raw with
  | dict items =>
    rw [parseFilter] at h
    simp only [crashes_only] at h
    obtain ⟨hOnly, h⟩ := h
    split at h
    · rename_i kind key hKind
      have hMem : (kind, key) ∈ filterKinds := by
        have hFound : (kind, key) ∈ filterKinds.filter fun kind => (get items kind.2).isSome := by
          rw [hKind]
          exact List.mem_cons_self
        exact (List.mem_filter.mp hFound).1
      simp only [crashes_flag] at h
      obtain ⟨negate, hNot, h⟩ := h
      split at h
      · split at h
        · cases h
        · cases h
      · simp only [crashes_text] at h
        obtain ⟨arg, hArg, h⟩ := h
        split at h
        · rename_i hMatches
          obtain hPattern | ⟨_, -, h⟩ := crashes_bind.mp h
          · obtain ⟨hRead, hCompile⟩ := pattern_crashes.mp hPattern
            have hKey : key = "matches" := by
              simp only [filterKinds, hMatches, List.mem_cons, Prod.mk.injEq, reduceCtorEq, false_and, or_false,
                true_and, List.not_mem_nil] at hMem
              exact hMem
            rw [hMatches, hKey] at hKind
            rw [hKey] at hArg
            exact .filter hOnly hKind hNot hArg hRead hCompile
          · cases h
        · simp only [crashes_deferIfToken] at h
          cases h.2
    · cases h
  | _ => cases h

theorem parsePick_crashes (h : Crashes (parsePick ⟨.op position "pick", [], defer⟩ raw)) :
    OpOverflows py defer position (.dict [("pick", raw)]) := by
  unfold parsePick at h
  split at h
  · cases h
  · cases h
  · simp only [crashes_deferIfToken] at h
    obtain hIndex | ⟨_, -, h⟩ := crashes_bind.mp h.2
    · obtain ⟨text, rfl, hLong⟩ := asIndex_crashes.mp hIndex
      exact .pick hLong
    · cases h

theorem parseSort_not_crashes {a : Args} : ¬Crashes (parseSort a raw) := by
  have hArgs (items : List (String × Val)) : ¬Crashes (parseSort.ofArgs a items) := by
    intro h
    rw [parseSort.ofArgs] at h
    simp only [crashes_only, crashes_text] at h
    obtain ⟨-, order, -, h⟩ := h
    split at h
    · simp only [crashes_flag] at h
      obtain ⟨_, -, h⟩ := h
      cases h
    · simp only [crashes_flag] at h
      obtain ⟨_, -, h⟩ := h
      cases h
    · cases h
  cases raw with
  | str order => exact hArgs _
  | dict items => exact hArgs _
  | _ => exact nofun

theorem parseRegex_crashes (h : Crashes (parseRegex py ⟨.op position "regex", [], defer⟩ raw)) :
    OpOverflows py defer position (.dict [("regex", raw)]) := by
  cases raw with
  | dict items =>
    rw [parseRegex] at h
    simp only [crashes_only] at h
    obtain ⟨hOnly, h⟩ := h
    obtain hIndex | ⟨group, hGroup, h⟩ := crashes_bind.mp h
    · obtain ⟨text, hText, hLong⟩ := index_crashes.mp hIndex
      exact .group hOnly hText hLong
    · simp only [crashes_text] at h
      obtain ⟨pattern, hPattern, h⟩ := h
      obtain hCompile | ⟨_, -, h⟩ := crashes_bind.mp h
      · obtain ⟨hRead, hCompile⟩ := pattern_crashes.mp hCompile
        exact .pattern hOnly hGroup hPattern hRead hCompile
      · cases h
  | _ => cases h

theorem parseReplace_crashes (h : Crashes (parseReplace py ⟨.op position "replace", [], defer⟩ raw)) :
    OpOverflows py defer position (.dict [("replace", raw)]) := by
  cases raw with
  | dict items =>
    rw [parseReplace] at h
    simp only [crashes_only, crashes_text, crashes_flag, crashes_deferIfToken] at h
    obtain ⟨hOnly, find, hFind, with_, hWith, regex, hRegex, hDeferWith, h⟩ := h
    cases regex with
    | false =>
      simp only [crashes_deferIfToken, Bool.false_eq_true, if_false] at h
      cases h.2
    | true =>
      obtain hPattern | ⟨_, -, h⟩ := crashes_bind.mp h
      · obtain ⟨hRead, hCompile⟩ := pattern_crashes.mp hPattern
        exact .replace hOnly hFind hWith hRegex hDeferWith hRead hCompile
      · cases h
  | _ => cases h

theorem index_required {a : Args} {key : String} {found : Option Nat} (h : a.index key true = .ok found) :
    ∃ i, found = some i := by
  unfold Args.index at h
  split at h
  · cases h
  · rw [Args.deferIfToken] at h
    split at h
    · cases h
    · cases hIndex : a.asIndex _ ("`" ++ key ++ "`") with
      | error stop =>
        rw [hIndex] at h
        cases h
      | ok i =>
        rw [hIndex] at h
        cases h
        exact ⟨i, rfl⟩

theorem parseSubstring_crashes (h : Crashes (parseSubstring ⟨.op position "substring", [], defer⟩ raw)) :
    OpOverflows py defer position (.dict [("substring", raw)]) := by
  cases raw with
  | dict items =>
    rw [parseSubstring] at h
    simp only [crashes_only] at h
    obtain ⟨hOnly, h⟩ := h
    obtain hIndex | ⟨start, hStart, h⟩ := crashes_bind.mp h
    · obtain ⟨text, hText, hLong⟩ := index_crashes.mp hIndex
      exact .start hOnly hText hLong
    obtain hIndex | ⟨end_, -, h⟩ := crashes_bind.mp h
    · obtain ⟨text, hText, hLong⟩ := index_crashes.mp hIndex
      exact .end_ hOnly hStart hText hLong
    · obtain ⟨i, rfl⟩ := index_required hStart
      cases h
  | _ => cases h

theorem parseCase_not_crashes {a : Args} : ¬Crashes (parseCase a raw) := by
  unfold parseCase
  split
  all_goals exact nofun

theorem parseJoin_not_crashes {a : Args} : ¬Crashes (parseJoin a raw) := by
  unfold parseJoin
  split
  all_goals exact nofun

theorem parseArgs_crashes {name : String} (hName : (get signatures name).isSome = true) (hArgs : get bareOps name = none)
    (h : Crashes (parseArgs py ⟨.op position name, [], defer⟩ raw name)) :
    OpOverflows py defer position (.dict [(name, raw)]) := by
  unfold parseArgs at h
  split at h
  · exact parseSplit_crashes h
  · exact absurd h parseJoin_not_crashes
  · exact parseFilter_crashes h
  · exact parsePick_crashes h
  · exact absurd h parseSort_not_crashes
  · exact parseRegex_crashes h
  · exact parseReplace_crashes h
  · exact parseSubstring_crashes h
  · exact absurd h parseCase_not_crashes
  · obtain ⟨kinds, hKinds⟩ := Option.isSome_iff_exists.mp hName
    have hMem := get_mem hKinds
    simp only [signatures, List.mem_cons, Prod.mk.injEq, List.not_mem_nil, or_false] at hMem
    obtain h | h | h | h | h | h | h | h | h | h | h | h | h | h := hMem
    all_goals
      obtain ⟨rfl, -⟩ := h
      contradiction

end Parsers

/-- An operation that the parser lets something through for is one whose argument overflows. -/
theorem opOverflows_of_parseOne {raw : Val} {position : Nat} {defer : Bool}
    (h : parseOne py raw position defer = .error .crash) : OpOverflows py defer position raw := by
  have hBareArgs {name : String} (hName : (get signatures name).isSome = true) (hBare : get bareOps name = none)
      (hSort : ¬(name ≠ "sort" ∧ (get bareOps name).isNone = true)) :
      ¬Crashes (parseArgs py ⟨.op position name, [], defer⟩ .null name) := by
    obtain rfl : name = "sort" := by
      by_contra hNe
      exact hSort ⟨hNe, by rw [hBare]; rfl⟩
    rw [parseArgs]
    exact parseSort_not_crashes
  rw [parseOne] at h
  split at h
  · cases h
  rename_i name arg isBare hParts
  dsimp only at h
  split at h
  · cases h
  rename_i hNone
  have hName : (get signatures name).isSome = true := Option.isSome_iff_ne_none.mpr (by simpa using hNone)
  split at h
  · cases h
  rename_i hTakes
  split at h
  · split at h
    · cases h
    · cases h
  rename_i hBare
  split at h
  · cases h
  · cases h
  rename_i stop hStop
  cases h
  cases raw with
  | str text =>
    cases hParts
    exact absurd hStop (hBareArgs hName hBare fun hSort => hTakes ⟨rfl, hSort⟩)
  | dict items =>
    match items, hParts with
    | [(_, _)], hParts =>
      cases hParts
      exact parseArgs_crashes hName hBare hStop
  | _ => cases hParts

theorem parseOne_of_crashes {name : String} {arg : Val} {position : Nat} {defer : Bool}
    (hName : (get signatures name).isSome = true) (hBare : get bareOps name = none)
    (h : Crashes (parseArgs py ⟨.op position name, [], defer⟩ arg name)) :
    parseOne py (.dict [(name, arg)]) position defer = .error .crash := by
  rw [parseOne, opParts]
  dsimp only
  have hKnown : ¬(get signatures name).isNone = true := by
    rw [Option.isNone_iff_eq_none]
    exact Option.isSome_iff_ne_none.mp hName
  rw [if_neg hKnown, if_neg fun hTakes => Bool.false_ne_true hTakes.1, hBare, h]

theorem OpOverflows.parseOne {raw : Val} {position : Nat} {defer : Bool} (h : OpOverflows py defer position raw) :
    parseOne py raw position defer = .error .crash := by
  cases h with
  | split hOnly hBy hRegex hDefer hNe hCompile =>
    apply parseOne_of_crashes rfl rfl
    rw [parseArgs, parseSplit]
    simp only [pure_bind, crashes_only, crashes_text, crashes_flag, crashes_deferIfToken]
    refine ⟨hOnly, _, hBy, true, hRegex, hDefer, ?_⟩
    rw [if_neg hNe, if_pos rfl]
    exact crashes_bind.mpr (.inl (pattern_crashes.mpr ⟨hDefer, hCompile⟩))
  | filter hOnly hKind hNot hArg hDefer hCompile =>
    apply parseOne_of_crashes rfl rfl
    rw [parseArgs, parseFilter]
    simp only [crashes_only]
    refine ⟨hOnly, ?_⟩
    rw [hKind]
    simp only [crashes_flag]
    refine ⟨_, hNot, ?_⟩
    rw [if_neg nofun]
    simp only [crashes_text]
    refine ⟨_, hArg, ?_⟩
    rw [if_pos trivial]
    exact crashes_bind.mpr (.inl (pattern_crashes.mpr ⟨hDefer, hCompile⟩))
  | pick hLong =>
    apply parseOne_of_crashes rfl rfl
    rw [parseArgs]
    unfold parsePick
    split
    · rename_i hText
      cases hText
      exact absurd hLong (by decide)
    · rename_i hText
      cases hText
      exact absurd hLong (by decide)
    · simp only [crashes_deferIfToken]
      exact ⟨not_deferred_of_longDigits hLong, crashes_bind.mpr (.inl (asIndex_crashes.mpr ⟨_, rfl, hLong⟩))⟩
  | group hOnly hGroup hLong =>
    apply parseOne_of_crashes rfl rfl
    rw [parseArgs, parseRegex]
    simp only [crashes_only]
    exact ⟨hOnly, crashes_bind.mpr (.inl (index_crashes.mpr ⟨_, hGroup, hLong⟩))⟩
  | pattern hOnly hGroup hPattern hDefer hCompile =>
    apply parseOne_of_crashes rfl rfl
    rw [parseArgs, parseRegex]
    simp only [crashes_only]
    refine ⟨hOnly, crashes_bind.mpr (.inr ⟨_, hGroup, ?_⟩)⟩
    simp only [crashes_text]
    exact ⟨_, hPattern, crashes_bind.mpr (.inl (pattern_crashes.mpr ⟨hDefer, hCompile⟩))⟩
  | replace hOnly hFind hWith hRegex hDeferWith hDefer hCompile =>
    apply parseOne_of_crashes rfl rfl
    rw [parseArgs, parseReplace]
    simp only [crashes_only, crashes_text, crashes_flag, crashes_deferIfToken]
    refine ⟨hOnly, _, hFind, _, hWith, true, hRegex, hDeferWith, ?_⟩
    exact crashes_bind.mpr (.inl (pattern_crashes.mpr ⟨hDefer, hCompile⟩))
  | start hOnly hStart hLong =>
    apply parseOne_of_crashes rfl rfl
    rw [parseArgs, parseSubstring]
    simp only [crashes_only]
    exact ⟨hOnly, crashes_bind.mpr (.inl (index_crashes.mpr ⟨_, hStart, hLong⟩))⟩
  | end_ hOnly hStart hEnd hLong =>
    apply parseOne_of_crashes rfl rfl
    rw [parseArgs, parseSubstring]
    simp only [crashes_only]
    refine ⟨hOnly, crashes_bind.mpr (.inr ⟨_, hStart, crashes_bind.mpr (.inl ?_)⟩)⟩
    exact index_crashes.mpr ⟨_, hEnd, hLong⟩

theorem parseOne_crash_iff {raw : Val} {position : Nat} {defer : Bool} :
    parseOne py raw position defer = .error .crash ↔ OpOverflows py defer position raw :=
  ⟨opOverflows_of_parseOne, OpOverflows.parseOne⟩

/-! ## Nothing is deferred where nothing may be -/

abbrev Undeferred {α : Type} (x : Except Stop α) : Prop := x ≠ .error .deferred

section Undeferred

variable {a : Args} {raw : Val} {α β : Type}

theorem undeferred_bind {x : Except Stop α} {f : α → Except Stop β} (hx : Undeferred x)
    (hf : ∀ value, Undeferred (f value)) : Undeferred (x >>= f) := by
  cases x with
  | error stop =>
    intro h
    cases h
    exact hx rfl
  | ok value => exact hf value

theorem undeferred_only (allowed : List String) : Undeferred (a.only allowed) := by
  rw [Args.only]
  split
  · exact nofun
  · exact nofun

theorem undeferred_text (key : String) (default : Option String) : Undeferred (a.text key default) := by
  unfold Args.text
  split
  all_goals exact nofun

theorem undeferred_flag (key : String) : Undeferred (a.flag key) := by
  rw [Args.flag]
  split
  all_goals exact nofun

theorem undeferred_asIndex (value : Val) (label : String) : Undeferred (a.asIndex value label) := by
  unfold Args.asIndex
  split
  · split
    · exact nofun
    · exact nofun
  · split
    · split
      · exact nofun
      · exact nofun
    · exact nofun
  · exact nofun

variable (hDefer : a.defer = false)
include hDefer

theorem undeferred_deferIfToken (value : Val) : Undeferred (a.deferIfToken value) := by
  have hRead : a.deferred value = false := by
    cases value with
    | str text => rw [Args.deferred, hDefer, Bool.false_and]
    | _ => rfl
  rw [deferIfToken_ok.mpr hRead]
  exact nofun

theorem undeferred_index (key : String) (required : Bool) : Undeferred (a.index key required) := by
  unfold Args.index
  split
  · cases required with
    | _ => exact nofun
  · apply undeferred_bind (undeferred_deferIfToken hDefer _)
    intro _
    exact undeferred_bind (undeferred_asIndex _ _) fun _ => nofun

theorem undeferred_pattern (value label : String) : Undeferred (a.pattern py value label) := by
  apply undeferred_bind (undeferred_deferIfToken hDefer _)
  intro _
  split
  all_goals exact nofun

theorem undeferred_parseSplit : Undeferred (parseSplit py a raw) := by
  have hRest (items : List (String × Val)) : Undeferred (parseSplit py a (.dict items)) := by
    have hOver (items : List (String × Val)) : (a.over_ items).defer = false := hDefer
    refine undeferred_bind nofun fun items => undeferred_bind (undeferred_only _) fun _ => ?_
    refine undeferred_bind (undeferred_text _ _) fun by_ => undeferred_bind (undeferred_flag _) fun regex => ?_
    refine undeferred_bind (undeferred_deferIfToken (hOver items) _) fun _ => ?_
    split
    · exact nofun
    split
    · exact undeferred_bind (undeferred_pattern (hOver items) _ _) fun _ => nofun
    · exact nofun
  cases raw with
  | str by_ => exact hRest [("by", .str by_)]
  | dict items => exact hRest items
  | _ => exact nofun

theorem undeferred_parseFilter : Undeferred (parseFilter py a raw) := by
  cases raw with
  | dict items =>
    have hOver : (a.over_ items).defer = false := hDefer
    refine undeferred_bind (undeferred_only _) fun _ => ?_
    split
    · refine undeferred_bind (undeferred_flag _) fun negate => ?_
      split
      · split
        · exact nofun
        · exact nofun
      · refine undeferred_bind (undeferred_text _ _) fun arg => ?_
        split
        · exact undeferred_bind (undeferred_pattern hOver _ _) fun _ => nofun
        · exact undeferred_bind (undeferred_deferIfToken hOver _) fun _ => nofun
    · exact nofun
  | _ => exact nofun

theorem undeferred_parsePick : Undeferred (parsePick a raw) := by
  unfold parsePick
  split
  · exact nofun
  · exact nofun
  · refine undeferred_bind (undeferred_deferIfToken hDefer _) fun _ => ?_
    exact undeferred_bind (undeferred_asIndex _ _) fun _ => nofun

theorem undeferred_parseRegex : Undeferred (parseRegex py a raw) := by
  cases raw with
  | dict items =>
    have hOver : (a.over_ items).defer = false := hDefer
    refine undeferred_bind (undeferred_only _) fun _ => undeferred_bind (undeferred_index hOver _ _) fun group => ?_
    refine undeferred_bind (undeferred_text _ _) fun pattern => ?_
    exact undeferred_bind (undeferred_pattern hOver _ _) fun _ => nofun
  | _ => exact nofun

theorem undeferred_parseReplace : Undeferred (parseReplace py a raw) := by
  cases raw with
  | dict items =>
    have hOver : (a.over_ items).defer = false := hDefer
    refine undeferred_bind (undeferred_only _) fun _ => undeferred_bind (undeferred_text _ _) fun find => ?_
    refine undeferred_bind (undeferred_text _ _) fun with_ => undeferred_bind (undeferred_flag _) fun regex => ?_
    refine undeferred_bind (undeferred_deferIfToken hOver _) fun _ => ?_
    split
    · exact undeferred_bind (undeferred_pattern hOver _ _) fun _ => nofun
    · exact undeferred_bind (undeferred_deferIfToken hOver _) fun _ => nofun
  | _ => exact nofun

theorem undeferred_parseSubstring : Undeferred (parseSubstring a raw) := by
  cases raw with
  | dict items =>
    have hOver : (a.over_ items).defer = false := hDefer
    refine undeferred_bind (undeferred_only _) fun _ => undeferred_bind (undeferred_index hOver _ _) fun start => ?_
    refine undeferred_bind (undeferred_index hOver _ _) fun end_ => ?_
    split
    · exact nofun
    · exact nofun
  | _ => exact nofun

theorem undeferred_parseArgs (name : String) : Undeferred (parseArgs py a raw name) := by
  unfold parseArgs
  split
  · exact undeferred_parseSplit hDefer
  · unfold parseJoin
    split
    all_goals exact nofun
  · exact undeferred_parseFilter hDefer
  · exact undeferred_parsePick hDefer
  · have hArgs (items : List (String × Val)) : Undeferred (parseSort.ofArgs a items) := by
      refine undeferred_bind (undeferred_only _) fun _ => undeferred_bind (undeferred_text _ _) fun order => ?_
      split
      · exact undeferred_bind (undeferred_flag _) fun _ => nofun
      · exact undeferred_bind (undeferred_flag _) fun _ => nofun
      · exact nofun
    cases raw with
    | str order => exact hArgs _
    | dict items => exact hArgs _
    | _ => exact nofun
  · exact undeferred_parseRegex hDefer
  · exact undeferred_parseReplace hDefer
  · exact undeferred_parseSubstring hDefer
  · unfold parseCase
    split
    all_goals exact nofun
  · exact nofun

end Undeferred

theorem parsed_of_parseOne {raw : Val} {position : Nat} {name : String} {op : Option EvalOp}
    (h : parseOne py raw position false = .ok (name, op)) : ∃ parsed, op = some parsed := by
  rw [parseOne] at h
  split at h
  · cases h
  dsimp only at h
  split at h
  · cases h
  split at h
  · cases h
  split at h
  · split at h
    · cases h
      exact ⟨_, rfl⟩
    · cases h
  split at h
  · cases h
    exact ⟨_, rfl⟩
  · rename_i hDeferred
    exact absurd hDeferred (undeferred_parseArgs rfl _)
  · cases h

end Bajutsu.Scenarios
