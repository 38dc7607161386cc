import Bajutsu.Assertions.VisualRaises

/-!
# Malformed assertions

A pattern that does not compile matches nothing. Where its evaluation does not come to the pattern, an assertion fails
for that, unless it holds where nothing matches.
-/

namespace Bajutsu.Assertions

open PyValue (Val)
open Drivers Raising

/-! ## The patterns of an assertion -/

def EndpointMatch.HasPattern (m : EndpointMatch) (pattern : String) : Prop :=
  m.urlMatches = some pattern ∨ m.pathMatches = some pattern

def RequestMatch.HasPattern (req : RequestMatch) (pattern : String) : Prop :=
  req.toEndpointMatch.HasPattern pattern ∨ req.bodyMatches = some pattern

/-- The regular expressions of an assertion, those of its dictionaries aside. -/
def HasPattern (pattern : String) : Assertion OtherKind → Prop
  | .request req => req.HasPattern pattern
  | .requestSequence seq => ∃ req ∈ seq, req.HasPattern pattern
  | .other (.exists sel _) => sel.HasPattern pattern
  | .other (.value m) => m.sel.HasPattern pattern ∨ m.op = .matches pattern
  | .other (.label m) => m.sel.HasPattern pattern ∨ m.op = .matches pattern
  | .other (.count m) => m.sel.HasPattern pattern
  | .other (.enabled sel) => sel.HasPattern pattern
  | .other (.disabled sel) => sel.HasPattern pattern
  | .other (.selected sel) => sel.HasPattern pattern
  | .other (.event m) => m.toEndpointMatch.HasPattern pattern
  | .other (.responseSchema m) => m.request.HasPattern pattern
  | .other (.visual m) =>
    (∃ sel, m.element = some sel ∧ sel.HasPattern pattern) ∨ ∃ sel, .selector sel ∈ m.exclude ∧ sel.HasPattern pattern
  | .other (.clipboard m) => m = .matches pattern
  | .other (.attribute m) => m.sel.HasPattern pattern ∨ m.op = .text (.matches pattern)
  | .other (.golden _) => False

section Malformed

variable (env : Environment) (elements : List (Element ℚ)) (exchanges : List NetworkExchange) (ctx : EvalContext)

def BadPattern (a : Assertion OtherKind) : Prop := ∃ pattern, HasPattern pattern a ∧ env.compile pattern = none

/-- A schema file that is no JSON text, or a schema for which validating never says whether a value is valid. -/
inductive MalformedSchema : FileText → Prop
  | unreadable : MalformedSchema .unreadable
  | undecodable : MalformedSchema .undecodable
  | json {content : String} (hLoads : env.loads content = none) : MalformedSchema (.text content)
  | invalid {content : String} {schema : Val} {validate : Val → Val → Validation}
    (hLoads : env.loads content = some schema) (hExtra : env.jsonschema = some validate)
    (hInvalid : ∀ value, ∃ text, validate value schema = .schemaError text ∨ validate value schema = .raised text) :
    MalformedSchema (.text content)

inductive Malformed : Assertion OtherKind → Prop
  | pattern {a : Assertion OtherKind} (hBad : BadPattern env a) : Malformed a
  | schema {m : ResponseSchemaMatch} {schemas : String → Confined FileText} {file : FileText}
    (hContext : ctx.schema = some schemas) (hFile : schemas m.schemaPath = .inside (.file file))
    (hBad : MalformedSchema env file) : Malformed (.other (.responseSchema m))
  | golden {path : String} {goldens : GoldenContext} {file : FileText} (hContext : ctx.golden = some goldens)
    (hFile : goldens.goldens path = .inside (.file file)) (hBad : GoldenRefused env elements file) :
    Malformed (.other (.golden path))

/-! ## What holds where nothing matches -/

def AttributeOp.Holds (actual : Option String) : AttributeOp → Prop
  | .absent => actual = none
  | .text op => textCmp env actual op = .ok true

/-- The images are compared, and are the same within the threshold. -/
inductive VisualSame (ctx : VisualContext) (a : VisualMatch) : Prop
  | intro {prepared : Prepared} {baseline : Option ImageFile} {pillow : Pillow}
    {masks : List (Option Evidence.Visual.ExcludeRegion)} {result : Evidence.Visual.CompareResult}
    (hPrepared : prepareVisualComparison env ctx elements a = .ok (.ok prepared))
    (hBaseline : ctx.baselines a.baseline = .file baseline) (hPillow : env.pillow = some pillow)
    (hTuned : ¬Mistuned ctx a) (hMasks : resolveMasks env elements prepared a.exclude = .ok (.ok masks))
    (hCompare : compareFiles env pillow a (a.compare.getD ctx.defaultCompare) prepared.compareActual baseline masks =
      .ok result)
    (hSame : result.ok = true)

/-- What makes an assertion hold although its pattern matches nothing. -/
def HoldsAnyway : Assertion OtherKind → Prop
  | .request req => req.count = some 0
  | .other (.exists _ negate) => negate = true
  | .other (.count m) => m.op.holds 0 = true
  | .other (.event m) => ∃ count, m.count = some count ∧ count.holds 0 = true
  | .other (.attribute m) =>
    ∃ actual, ctx.attributes (env.selKey m.sel, m.name) = some ⟨actual, none⟩ ∧ m.op.Holds env actual
  | .other (.visual m) => ∃ visual, ctx.visual = some visual ∧ VisualSame env elements visual m
  | _ => False

/-- An assertion with a pattern that does not compile, which passes where the pattern is not come to. -/
def Overlooked (a : Assertion OtherKind) : Prop := BadPattern env a ∧ HoldsAnyway env elements ctx a

variable {env : Environment} {elements : List (Element ℚ)} {exchanges : List NetworkExchange} {ctx : EvalContext}
variable {pattern : String}

/-! ## The snapshot -/

theorem findElements_refused {sel : Selector} {found : List (Element ℚ)} (hPattern : sel.HasPattern pattern)
    (hBad : env.compile pattern = none) (h : findElements env elements sel = .ok found) : found = [] := by
  rw [findElements] at h
  cases hFound : findAll env.fnmatchcase env.compile elements sel with
  | error e =>
    rw [hFound] at h
    cases h
  | ok found' =>
    rw [hFound] at h
    cases h
    exact findAll_refused hPattern hBad hFound

theorem resolveOne_refused {sel : Selector} {el : Element ℚ} (hPattern : sel.HasPattern pattern)
    (hBad : env.compile pattern = none) : resolveOne env elements sel ≠ .ok (.ok el) := by
  intro h
  obtain ⟨e, hError, -⟩ := @resolveUnique_refused ℚ env.fnmatchcase env.compile elements sel pattern _ _ _ _ hPattern hBad
  cases hError.symm.trans (resolveOne_ok.mp h)

theorem textCmp_refused {actual : Option String} (hBad : env.compile pattern = none) :
    textCmp env actual (.matches pattern) ≠ .ok true := by
  cases actual with
  | none => exact nofun
  | some text =>
    obtain ⟨e, hError⟩ := (@raises_textCmp env (some text) (.matches pattern)).mpr ⟨⟨pattern, rfl, hBad⟩, text, rfl⟩
    rw [hError]
    exact nofun

theorem gives_evalExists {sel : Selector} {negate : Bool} (hPattern : sel.HasPattern pattern)
    (hBad : env.compile pattern = none) :
    Gives (fun r => r.ok = true ↔ negate = true) (evalExists env elements sel negate) := by
  rw [evalExists]
  apply gives_bind
  intro found hFound
  obtain rfl := findElements_refused hPattern hBad hFound
  apply gives_pure
  simp

theorem gives_evalCount {m : CountMatch} (hPattern : m.sel.HasPattern pattern) (hBad : env.compile pattern = none) :
    Gives (fun r => r.ok = true ↔ m.op.holds 0 = true) (evalCount env elements m) := by
  rw [evalCount]
  apply gives_bind
  intro found hFound
  obtain rfl := findElements_refused hPattern hBad hFound
  exact gives_pure Iff.rfl

theorem gives_evalState {kind : String} {holds : List String → Bool} {sel : Selector}
    (hPattern : sel.HasPattern pattern) (hBad : env.compile pattern = none) :
    Gives (fun r => r.ok = false) (evalState env elements kind holds sel) := by
  rw [evalState]
  apply gives_bind
  intro found hFound
  cases found with
  | error reason => exact gives_pure rfl
  | ok el => exact absurd hFound (resolveOne_refused hPattern hBad)

theorem gives_evalText {kind : String} {field : Element ℚ → Option String} {m : TextMatch}
    (hPattern : m.sel.HasPattern pattern ∨ m.op = .matches pattern) (hBad : env.compile pattern = none) :
    Gives (fun r => r.ok = false) (evalText env elements kind field m) := by
  rw [evalText]
  apply gives_bind
  intro found hFound
  cases found with
  | error reason => exact gives_pure rfl
  | ok el =>
    obtain hSel | hOp := hPattern
    · exact absurd hFound (resolveOne_refused hSel hBad)
    · apply gives_bind
      intro ok hOk
      rw [hOp] at hOk
      cases ok with
      | true => exact absurd hOk (textCmp_refused hBad)
      | false => exact gives_pure rfl

theorem gives_evalAttribute {read : Option AttributeRead} {m : AttributeMatch} :
    Gives (fun r => r.ok = true ↔ ∃ actual, read = some ⟨actual, none⟩ ∧ m.op.Holds env actual)
      (evalAttribute env read m) := by
  rw [evalAttribute.eq_def]
  split
  · exact gives_ok (iff_of_false (by rintro ⟨⟩) (by rintro ⟨_, ⟨⟩, _⟩))
  · refine gives_ok (iff_of_false (by rintro ⟨⟩) ?_)
    rintro ⟨actual, hRead, -⟩
    cases hRead
  · rename_i actual
    have hHolds : (∃ text, some (⟨actual, none⟩ : AttributeRead) = some ⟨text, none⟩ ∧ m.op.Holds env text) ↔
        m.op.Holds env actual := by simp
    rw [hHolds]
    split
    · rename_i hOp
      apply gives_ok
      rw [hOp]
      exact Option.isNone_iff_eq_none
    · rename_i op hOp
      apply gives_bind
      intro ok hOk
      apply gives_pure
      rw [hOp, AttributeOp.Holds, hOk]
      simp

theorem gives_evalClipboard {clipboard : Option String} (hBad : env.compile pattern = none) :
    Gives (fun r => r.ok = false) (evalClipboard env clipboard (.matches pattern)) := by
  rw [evalClipboard.eq_def]
  cases clipboard with
  | none => exact gives_ok rfl
  | some text =>
    have hRaises : Raises (ClipboardMatch.holds env text (.matches pattern)) := by
      rw [ClipboardMatch.holds, raises_bind_ok (fun _ => not_raises_pure _), raises_compile]
      exact hBad
    obtain ⟨e, hError⟩ := hRaises
    apply gives_bind
    intro ok hOk
    cases hError.symm.trans hOk

/-! ## The timeline -/

theorem searches_refused {rt : Runtime} {text : String} (hBad : rt.compile pattern = none) :
    searches rt (some pattern) text ≠ .ok true := by
  obtain ⟨e, hError⟩ := (@raises_searches rt (some pattern) text).mpr ⟨pattern, rfl, hBad⟩
  rw [hError]
  exact nofun

theorem matchRequest_refused {rt : Runtime} {req : RequestMatch} {ex : NetworkExchange}
    (hPattern : req.HasPattern pattern) (hBad : rt.compile pattern = none) : matchRequest rt ex req ≠ .ok true := by
  intro h
  rw [matchRequest] at h
  obtain ⟨-, h⟩ := and_true h
  obtain ⟨-, h⟩ := and_true h
  obtain ⟨hUrl, h⟩ := and_true h
  obtain ⟨-, h⟩ := and_true h
  obtain ⟨hPath, h⟩ := and_true h
  obtain ⟨-, h⟩ := and_true h
  obtain ⟨hBody, -⟩ := and_true h
  obtain (hIs | hIs) | hIs := hPattern
  · exact searches_refused hBad (hIs ▸ hUrl)
  · exact searches_refused hBad (hIs ▸ hPath)
  · rw [hIs] at hBody
    cases hText : ex.requestBody with
    | none =>
      rw [hText] at hBody
      cases hBody
    | some body =>
      rw [hText] at hBody
      exact searches_refused hBad hBody

theorem filterM_refused {rt : Runtime} {req : RequestMatch} {kept : List NetworkExchange}
    (hPattern : req.HasPattern pattern) (hBad : rt.compile pattern = none)
    (h : (exchanges.filterM fun ex => matchRequest rt ex req) = .ok kept) : kept = [] := by
  apply List.eq_nil_iff_forall_not_mem.mpr
  intro ex hMem
  exact matchRequest_refused hPattern hBad (of_mem_filterM h hMem)

theorem gives_evalRequest {rt : Runtime} {req : RequestMatch} (hPattern : req.HasPattern pattern)
    (hBad : rt.compile pattern = none) :
    Gives (fun r => r.ok = true ↔ req.count = some 0) (evalRequest rt exchanges req) := by
  rw [evalRequest]
  apply gives_bind
  intro n hCount
  obtain ⟨kept, hKept, hLength⟩ := PyValue.bind_eq_ok hCount
  obtain rfl := filterM_refused hPattern hBad hKept
  cases hLength
  dsimp only
  split
  · rename_i count hSome
    rw [hSome]
    split
    · rename_i hZero
      exact gives_pure (iff_of_true rfl (congrArg some hZero.symm))
    · rename_i hSome
      exact gives_pure (iff_of_false (by rintro ⟨⟩) fun hIs => hSome (Option.some.inj hIs).symm)
  · rename_i hNone
    rw [hNone]
    apply gives_bind
    intro hint _
    exact gives_pure (iff_of_false (by rintro ⟨⟩) (by rintro ⟨⟩))

theorem gives_evalRequestSequence {rt : Runtime} {seq : List RequestMatch} {req : RequestMatch} (hMem : req ∈ seq)
    (hPattern : req.HasPattern pattern) (hBad : rt.compile pattern = none) :
    Gives (fun r => r.ok = false) (evalRequestSequence rt exchanges seq) := by
  intro r hResult
  by_contra hOk
  obtain ⟨⟨position, -, hAccepts⟩, -⟩ := (sequenceOk_iff exchanges seq).mp ⟨r, hResult, by simpa using hOk⟩
  obtain ⟨k, hk, rfl⟩ := List.getElem_of_mem hMem
  exact matchRequest_refused hPattern hBad (hAccepts ⟨k, hk⟩)

theorem eventCandidates_refused {m : EventMatch} {candidates : List NetworkExchange}
    (hPattern : m.toEndpointMatch.HasPattern pattern) (hBad : env.compile pattern = none)
    (h : eventCandidates env exchanges m = .ok candidates) : candidates = [] := by
  rw [eventCandidates] at h
  split at h
  · rename_i hEmpty
    simp only [EndpointMatch.endpointIsEmpty, Bool.and_eq_true, Option.isNone_iff_eq_none] at hEmpty
    obtain ⟨⟨⟨⟨-, -⟩, hUrl⟩, -⟩, hPath⟩ := hEmpty
    obtain hIs | hIs := hPattern
    · cases hUrl.symm.trans hIs
    · cases hPath.symm.trans hIs
  · exact filterM_refused (.inl hPattern) hBad h

theorem gives_evalEvent {m : EventMatch} (hPattern : m.toEndpointMatch.HasPattern pattern)
    (hBad : env.compile pattern = none) :
    Gives (fun r => r.ok = true ↔ ∃ count, m.count = some count ∧ count.holds 0 = true) (evalEvent env exchanges m) := by
  rw [evalEvent]
  apply gives_bind
  intro candidates hCandidates
  obtain rfl := eventCandidates_refused hPattern hBad hCandidates
  apply gives_bind
  intro kept hKept
  have hNone : kept = [] := by
    rw [eventMatches] at hKept
    split at hKept
    · exact (Except.ok.inj hKept).symm
    · exact (Except.ok.inj hKept).symm
  subst hNone
  have hSatisfied : countSatisfied ([] : List NetworkExchange).length m.count = true ↔
      ∃ count, m.count = some count ∧ count.holds 0 = true := by
    rw [countSatisfied.eq_def]
    cases m.count with
    | none => simp
    | some count => simp
  rw [← hSatisfied]
  dsimp only
  split
  · rename_i hHolds
    exact gives_pure (iff_of_true rfl hHolds)
  · rename_i hFails
    apply gives_bind
    intro hint _
    exact gives_pure (iff_of_false (by rintro ⟨⟩) hFails)

theorem firstMatch_refused {req : RequestMatch} {ex : NetworkExchange} (hPattern : req.HasPattern pattern)
    (hBad : env.compile pattern = none) : firstMatch env req exchanges ≠ .ok (some ex) := by
  induction exchanges with
  | nil => exact nofun
  | cons first rest ih =>
    intro h
    rw [firstMatch] at h
    obtain ⟨accepted, hAccepted, h⟩ := PyValue.bind_eq_ok h
    cases accepted with
    | true => exact matchRequest_refused hPattern hBad hAccepted
    | false => exact ih h

theorem gives_evalResponseSchema {m : ResponseSchemaMatch} {ctx : Option (String → Confined FileText)} :
    Gives (fun r => r.ok = true → ∃ schemas ex schema validate value, ctx = some schemas ∧
      firstMatch env m.request exchanges = .ok (some ex) ∧ loadSchema env schemas m.schemaPath = .ok (.ok schema) ∧
        env.jsonschema = some validate ∧ validate value schema = .valid) (evalResponseSchema env exchanges m ctx) := by
  rw [evalResponseSchema.eq_def]
  cases ctx with
  | none => exact gives_ok (by rintro ⟨⟩)
  | some schemas =>
    apply gives_bind
    intro first hFirst
    cases first with
    | none => exact gives_pure (by rintro ⟨⟩)
    | some ex =>
      apply gives_bind
      intro schema hSchema
      cases schema with
      | error reason => exact gives_pure (by rintro ⟨⟩)
      | ok schema =>
        dsimp only
        split
        · exact gives_pure (by rintro ⟨⟩)
        apply gives_bind
        intro parsed _
        cases parsed with
        | none => exact gives_pure (by rintro ⟨⟩)
        | some value =>
          apply gives_pure
          intro hOk
          rw [validateInstance.eq_def] at hOk
          split at hOk
          · cases hOk
          rename_i validate hExtra
          split at hOk
          · rename_i hValid
            exact ⟨schemas, ex, schema, validate, value, rfl, hFirst, hSchema, hExtra, hValid⟩
          all_goals cases hOk

theorem loadSchema_malformed {schemas : String → Confined FileText} {path : String} {file : FileText} {schema value : Val}
    {validate : Val → Val → Validation} (hFile : schemas path = .inside (.file file)) (hBad : MalformedSchema env file)
    (hLoad : loadSchema env schemas path = .ok (.ok schema)) (hExtra : env.jsonschema = some validate) :
    validate value schema ≠ .valid := by
  rw [loadSchema.eq_def, hFile] at hLoad
  cases hBad with
  | unreadable => cases hLoad
  | undecodable => cases hLoad
  | json hLoads =>
    obtain ⟨parsed, hParsed, hLoad⟩ := PyValue.bind_eq_ok hLoad
    rw [loadsOr, hLoads] at hParsed
    dsimp only at hParsed
    split at hParsed
    · cases hParsed
    · cases hParsed
      cases hLoad
  | invalid hLoads hExtra' hInvalid =>
    obtain ⟨parsed, hParsed, hLoad⟩ := PyValue.bind_eq_ok hLoad
    rw [loadsOr, hLoads] at hParsed
    cases hParsed
    cases hLoad
    cases hExtra.symm.trans hExtra'
    obtain ⟨text, hVerdict | hVerdict⟩ := hInvalid value
    · rw [hVerdict]
      rintro ⟨⟩
    · rw [hVerdict]
      rintro ⟨⟩

/-! ## Images -/

theorem gives_evalVisual {a : VisualMatch} {ctx : Option VisualContext} :
    Gives (fun r => r.ok = true ↔ ∃ visual, ctx = some visual ∧ VisualSame env elements visual a)
      (evalVisual env elements ctx a) := by
  rw [evalVisual.eq_def]
  cases ctx with
  | none =>
    refine gives_ok (iff_of_false (by rintro ⟨⟩) ?_)
    rintro ⟨visual, hContext, -⟩
    cases hContext
  | some visual =>
    have hContext : (∃ found, some visual = some found ∧ VisualSame env elements found a) ↔
        VisualSame env elements visual a := by simp
    rw [hContext]
    apply gives_bind
    intro prepared hPrepared
    cases prepared with
    | error reason =>
      refine gives_pure (iff_of_false (by rintro ⟨⟩) ?_)
      rintro ⟨hOk, -⟩
      cases hPrepared.symm.trans hOk
    | ok prepared =>
      dsimp only
      split
      · exact gives_error _ _
      · rename_i hMissing
        refine gives_pure (iff_of_false (by rintro ⟨⟩) ?_)
        rintro ⟨-, hFile, -⟩
        cases hMissing.symm.trans hFile
      · rename_i hNone
        refine gives_pure (iff_of_false (by rintro ⟨⟩) ?_)
        rintro ⟨-, -, hSome, -⟩
        cases hNone.symm.trans hSome
      rename_i baseline pillow hBaseline hPillow
      split
      · rename_i hTuned
        refine gives_pure (iff_of_false (by rintro ⟨⟩) ?_)
        rintro ⟨-, -, -, hNot, -⟩
        exact hNot (by simpa [Mistuned] using hTuned)
      rename_i hTuned
      have hTuned : ¬Mistuned visual a := by simpa [Mistuned] using hTuned
      apply gives_bind
      intro masks hMasks
      cases masks with
      | error reason =>
        refine gives_pure (iff_of_false (by rintro ⟨⟩) ?_)
        rintro ⟨hOk, -, -, -, hFound, -⟩
        cases hPrepared.symm.trans hOk
        cases hMasks.symm.trans hFound
      | ok masks =>
        apply gives_bind
        intro result hCompare
        apply gives_pure
        constructor
        · exact fun hSame => .intro hPrepared hBaseline hPillow hTuned hMasks hCompare hSame
        · rintro ⟨hOk, hFile, hSome, -, hFound, hCompared, hSame⟩
          cases hPrepared.symm.trans hOk
          cases hBaseline.symm.trans hFile
          cases hPillow.symm.trans hSome
          cases hMasks.symm.trans hFound
          cases hCompare.symm.trans hCompared
          exact hSame

/-! ## All kinds -/

/-- Where an assertion with a pattern that does not compile is evaluated, it passes only where it holds anyway. -/
theorem passes_iff_holdsAnyway {a : Assertion OtherKind} (h : BadPattern env a) :
    Gives (fun r => r.ok = true ↔ HoldsAnyway env elements ctx a) (evaluateKind env elements exchanges ctx a) := by
  obtain ⟨pattern, hPattern, hBad⟩ := h
  have hNever {x : Except Failure AssertionResult} (hFails : Gives (fun r => r.ok = false) x) :
      Gives (fun r => r.ok = true ↔ False) x := by
    intro r hResult
    rw [hFails r hResult]
    exact iff_of_false nofun id
  cases a with
  | request req => exact gives_evalRequest hPattern hBad
  | requestSequence seq =>
    obtain ⟨req, hMem, hPattern⟩ := hPattern
    exact hNever (gives_evalRequestSequence hMem hPattern hBad)
  | other a =>
    cases a with
    | «exists» sel negate => exact gives_evalExists hPattern hBad
    | value m => exact hNever (gives_evalText hPattern hBad)
    | label m => exact hNever (gives_evalText hPattern hBad)
    | count m => exact gives_evalCount hPattern hBad
    | enabled sel =>
      rw [evaluateKind, evaluateOne, evalOther]
      exact hNever (gives_evalState hPattern hBad)
    | disabled sel =>
      rw [evaluateKind, evaluateOne, evalOther]
      exact hNever (gives_evalState hPattern hBad)
    | selected sel =>
      rw [evaluateKind, evaluateOne, evalOther]
      exact hNever (gives_evalState hPattern hBad)
    | event m => exact gives_evalEvent hPattern hBad
    | responseSchema m =>
      apply hNever
      intro r hResult
      by_contra hOk
      obtain ⟨_, ex, _, _, _, -, hFirst, -⟩ := gives_evalResponseSchema r hResult (by simpa using hOk)
      exact firstMatch_refused hPattern hBad hFirst
    | visual m => exact gives_evalVisual
    | clipboard m =>
      obtain rfl : m = .matches pattern := hPattern
      exact hNever (gives_evalClipboard hBad)
    | «attribute» m => exact gives_evalAttribute
    | golden path => cases hPattern

/-- A malformed assertion fails where it is evaluated, if it is not one that holds anyway. -/
theorem fails_of_malformed {a : Assertion OtherKind} (hMalformed : Malformed env elements ctx a)
    (hNot : ¬Overlooked env elements ctx a) :
    Gives (fun r => r.ok = false) (evaluateKind env elements exchanges ctx a) := by
  intro r hResult
  cases hMalformed with
  | pattern hBad =>
    by_contra hOk
    exact hNot ⟨hBad, (passes_iff_holdsAnyway hBad r hResult).mp (by simpa using hOk)⟩
  | schema hContext hFile hBad =>
    by_contra hOk
    obtain ⟨schemas, ex, schema, validate, value, hSome, -, hLoad, hExtra, hValid⟩ :=
      gives_evalResponseSchema r hResult (by simpa using hOk)
    cases hContext.symm.trans hSome
    exact loadSchema_malformed hFile hBad hLoad hExtra hValid
  | @golden path goldens file hContext hFile hBad =>
    have hRaises : Raises (evalGolden env elements path (some goldens)) :=
      raises_evalGolden.mpr (.inr (.inr ⟨file, hFile, hBad⟩))
    rw [← hContext] at hRaises
    exact absurd hRaises (not_raises_iff.mpr ⟨r, hResult⟩)

end Malformed

end Bajutsu.Assertions
