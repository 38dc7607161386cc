import Bajutsu.Assertions.EvaluateVisual
import Bajutsu.Assertions.MatchRaises
import Bajutsu.Drivers.PatternReached
import Bajutsu.Evidence.GoldenRaises

/-!
# Where the evaluators raise

For every kind, what its evaluator comes to that raises: a pattern of the assertion or of its selector, a URL, a path, or
what a file or a body holds.
-/

namespace Bajutsu.Assertions

open PyValue (Val)
open Drivers Raising

section Kinds

variable (env : Environment) (elements : List (Element ℚ)) (exchanges : List NetworkExchange)

/-! ## The conditions -/

/-- Resolving a selector comes to a pattern that does not compile. -/
def SelectorRefused (sel : Selector) : Prop := PatternReached env.fnmatchcase env.compile elements sel

def OpRefused (op : TextOp) : Prop := ∃ pattern, op = .matches pattern ∧ env.compile pattern = none

def TextAborts (field : Element ℚ → Option String) (m : TextMatch) : Prop :=
  SelectorRefused env elements m.sel ∨
    OpRefused env m.op ∧ ∃ el text, resolveUnique env.fnmatchcase env.compile elements m.sel = .ok el ∧ field el = some text

def AttributeAborts (read : Option AttributeRead) (m : AttributeMatch) : Prop :=
  ∃ text op, read = some ⟨some text, none⟩ ∧ m.op = .text op ∧ OpRefused env op

def EventAborts (m : EventMatch) : Prop :=
  (m.endpointIsEmpty = false ∧ ∃ ex ∈ exchanges, Unmatchable env.toRuntime ex (endpoint m.toEndpointMatch)) ∨
    ∃ candidates, eventCandidates env exchanges m = .ok candidates ∧
      ∃ ex ∈ candidates, QueryUnread env.toRuntime ex m.toEndpointMatch

/-- Matching raises at an exchange, and every one before it does not match. -/
def FirstStops (req : RequestMatch) : Prop :=
  ∃ before ex after, exchanges = before ++ ex :: after ∧
    (∀ passed ∈ before, matchRequest env.toRuntime passed req = .ok false) ∧ Unmatchable env.toRuntime ex req

/-- `json.loads` raises `RecursionError`. -/
def TooDeep (text : String) : Prop := env.loads text = none ∧ env.deep text = true

def SchemaRefused (schemas : String → Confined FileText) (path : String) : Prop :=
  schemas path = .refused ∨ schemas path = .inside .refused ∨
    ∃ content, schemas path = .inside (.file (.text content)) ∧ TooDeep env content

inductive SchemaAborts (schemas : String → Confined FileText) (m : ResponseSchemaMatch) : Prop
  | request (hStops : FirstStops env exchanges m.request)
  | schema {ex : NetworkExchange} (hFirst : firstMatch env m.request exchanges = .ok (some ex))
    (hRefused : SchemaRefused env schemas m.schemaPath)
  | body {ex : NetworkExchange} {schema : Val} {body : String}
    (hFirst : firstMatch env m.request exchanges = .ok (some ex))
    (hSchema : loadSchema env schemas m.schemaPath = .ok (.ok schema)) (hBody : ex.responseBody = some body)
    (hDeep : TooDeep env body)

def ClipboardAborts (clipboard : Option String) (m : ClipboardMatch) : Prop :=
  clipboard.isSome = true ∧ ∃ pattern, m = .matches pattern ∧ env.compile pattern = none

/-- A file is not read as JSON, or holds something else than elements, or traits that cannot be compared. -/
inductive GoldenRefused : FileText → Prop
  | unreadable : GoldenRefused .unreadable
  | undecodable : GoldenRefused .undecodable
  | json {content : String} (hLoads : env.loads content = none) : GoldenRefused (.text content)
  | top {content : String} {raw : Val} (hLoads : env.loads content = some raw) (hTop : ∀ entries, raw ≠ .dict entries) :
    GoldenRefused (.text content)
  | entry {content : String} {entries : List (String × Val)} {entry : String × Val}
    (hLoads : env.loads content = some (.dict entries)) (hMem : entry ∈ entries) (hInvalid : ¬Evidence.Golden.ValidEntry entry) :
    GoldenRefused (.text content)
  | traits {content cid : String} {entries data : List (String × Val)} {actual : Element ℚ}
    (hLoads : env.loads content = some (.dict entries)) (hMem : (cid, Val.dict data) ∈ entries)
    (hActual : PyValue.get (Evidence.Golden.byId elements) (some cid) = some actual)
    (hTraits : Evidence.Golden.TraitsRefused (Evidence.Golden.fieldOf data "traits") actual.traits) : GoldenRefused (.text content)

def GoldenAborts (ctx : GoldenContext) (path : String) : Prop :=
  ctx.goldens path = .refused ∨ ctx.goldens path = .inside .refused ∨
    ∃ file, ctx.goldens path = .inside (.file file) ∧ GoldenRefused env elements file

/-! ## The snapshot -/

variable {env : Environment} {elements : List (Element ℚ)} {exchanges : List NetworkExchange}

theorem raises_findElements {sel : Selector} :
    Raises (findElements env elements sel) ↔ SelectorRefused env elements sel := by
  rw [findElements, raises_mapError, raises_findAll]
  rfl

theorem raises_resolveOne {sel : Selector} :
    Raises (resolveOne env elements sel) ↔ SelectorRefused env elements sel := by
  rw [SelectorRefused, ← resolveUnique_pattern_iff, resolveOne]
  cases resolveUnique env.fnmatchcase env.compile elements sel with
  | ok el => exact iff_of_false (not_raises_ok _) nofun
  | error e =>
    cases e with
    | invalidPattern pattern => exact iff_of_true (raises_error _) ⟨_, rfl, rfl⟩
    | _ =>
      refine iff_of_false (not_raises_ok _) ?_
      rintro ⟨e, hError, hClass⟩
      cases hError
      cases hClass

theorem resolveOne_ok {sel : Selector} {el : Element ℚ} : resolveOne env elements sel = .ok (.ok el) ↔
    resolveUnique env.fnmatchcase env.compile elements sel = .ok el := by
  rw [resolveOne]
  cases resolveUnique env.fnmatchcase env.compile elements sel with
  | ok found => simp
  | error e =>
    cases e with
    | _ => simp

theorem raises_evalExists {sel : Selector} {negate : Bool} :
    Raises (evalExists env elements sel negate) ↔ SelectorRefused env elements sel := by
  rw [evalExists, raises_bind_ok (fun _ => not_raises_pure _), raises_findElements]

theorem raises_evalCount {m : CountMatch} :
    Raises (evalCount env elements m) ↔ SelectorRefused env elements m.sel := by
  rw [evalCount, raises_bind_ok (fun _ => not_raises_pure _), raises_findElements]

theorem raises_evalState {kind : String} {holds : List String → Bool} {sel : Selector} :
    Raises (evalState env elements kind holds sel) ↔ SelectorRefused env elements sel := by
  rw [evalState, raises_bind_ok, raises_resolveOne]
  intro found
  cases found with
  | error reason => exact not_raises_pure _
  | ok el => exact not_raises_pure _

theorem raises_textCmp {actual : Option String} {op : TextOp} :
    Raises (textCmp env actual op) ↔ OpRefused env op ∧ ∃ text, actual = some text := by
  cases actual with
  | none => exact iff_of_false (not_raises_ok _) nofun
  | some text =>
    cases op with
    | equals expected => exact iff_of_false (not_raises_ok _) nofun
    | contains expected => exact iff_of_false (not_raises_ok _) nofun
    | «matches» pattern =>
      rw [textCmp, raises_bind_ok (fun _ => not_raises_pure _), raises_compile]
      constructor
      · exact fun hBad => ⟨⟨pattern, rfl, hBad⟩, text, rfl⟩
      · rintro ⟨⟨_, hOp, hBad⟩, -⟩
        cases hOp
        exact hBad

theorem raises_evalText {kind : String} {field : Element ℚ → Option String} {m : TextMatch} :
    Raises (evalText env elements kind field m) ↔ TextAborts env elements field m := by
  rw [evalText, raises_bind, raises_resolveOne, TextAborts]
  apply or_congr_right
  constructor
  · rintro ⟨found, hFound, hRest⟩
    cases found with
    | error reason => exact absurd hRest (not_raises_pure _)
    | ok el =>
      have hCmp : Raises (textCmp env (field el) m.op) := (raises_bind_ok fun _ => not_raises_pure _).mp hRest
      obtain ⟨hOp, text, hText⟩ := raises_textCmp.mp hCmp
      exact ⟨hOp, el, text, resolveOne_ok.mp hFound, hText⟩
  · rintro ⟨hOp, el, text, hFound, hText⟩
    refine ⟨.ok el, resolveOne_ok.mpr hFound, ?_⟩
    exact (raises_bind_ok fun _ => not_raises_pure _).mpr (raises_textCmp.mpr ⟨hOp, text, hText⟩)

theorem raises_evalAttribute {read : Option AttributeRead} {m : AttributeMatch} :
    Raises (evalAttribute env read m) ↔ AttributeAborts env read m := by
  rw [evalAttribute.eq_def, AttributeAborts]
  split
  · exact iff_of_false (not_raises_ok _) nofun
  · refine iff_of_false (not_raises_ok _) ?_
    rintro ⟨_, _, hRead, -⟩
    cases hRead
  · rename_i actual
    split
    · rename_i hOp
      refine iff_of_false (not_raises_ok _) ?_
      rintro ⟨_, _, -, hText, -⟩
      cases hOp.symm.trans hText
    · rename_i op hOp
      rw [raises_bind_ok (fun _ => not_raises_pure _), raises_textCmp]
      constructor
      · rintro ⟨hBad, text, rfl⟩
        exact ⟨text, op, rfl, hOp, hBad⟩
      · rintro ⟨text, op', hRead, hText, hBad⟩
        cases hRead
        cases hOp.symm.trans hText
        exact ⟨hBad, text, rfl⟩

theorem raises_evalClipboard {clipboard : Option String} {m : ClipboardMatch} :
    Raises (evalClipboard env clipboard m) ↔ ClipboardAborts env clipboard m := by
  rw [evalClipboard.eq_def, ClipboardAborts]
  cases clipboard with
  | none => exact iff_of_false (not_raises_ok _) nofun
  | some text =>
    dsimp only
    rw [raises_bind_ok (fun _ => not_raises_pure _)]
    cases m with
    | equals expected => exact iff_of_false (not_raises_ok _) nofun
    | «matches» pattern =>
      rw [ClipboardMatch.holds, raises_bind_ok (fun _ => not_raises_pure _), raises_compile]
      constructor
      · exact fun hBad => ⟨rfl, pattern, rfl, hBad⟩
      · rintro ⟨-, _, hOp, hBad⟩
        cases hOp
        exact hBad

/-! ## The timeline -/

theorem not_unmatchable_empty {rt : Runtime} {m : EndpointMatch} (h : m.endpointIsEmpty = true) (ex : NetworkExchange) :
    ¬Unmatchable rt ex (endpoint m) := by
  simp only [EndpointMatch.endpointIsEmpty, Bool.and_eq_true, Option.isNone_iff_eq_none] at h
  obtain ⟨⟨⟨⟨-, -⟩, hUrl⟩, -⟩, hPath⟩ := h
  intro hBad
  cases hBad with
  | url _ hPattern _ => cases hUrl.symm.trans hPattern
  | path _ hPattern _ => cases hPath.symm.trans hPattern
  | body _ _ _ hPattern _ _ => cases hPattern
  | query _ _ _ _ hUnread => cases hUnread.1

theorem raises_eventCandidates {m : EventMatch} : Raises (eventCandidates env exchanges m) ↔
    m.endpointIsEmpty = false ∧ ∃ ex ∈ exchanges, Unmatchable env.toRuntime ex (endpoint m.toEndpointMatch) := by
  rw [eventCandidates]
  cases m.endpointIsEmpty with
  | true => exact iff_of_false (not_raises_ok _) nofun
  | false =>
    rw [if_neg Bool.false_ne_true, raises_endpoint]
    exact (and_iff_right rfl).symm

theorem mem_eventCandidates {m : EventMatch} {candidates : List NetworkExchange} {ex : NetworkExchange}
    (hCandidates : eventCandidates env exchanges m = .ok candidates)
    (hHint : (exchanges.filterM fun ex => matchRequest env.toRuntime ex (endpoint m.toEndpointMatch)) = .ok [ex]) :
    ex ∈ candidates := by
  rw [eventCandidates] at hCandidates
  split at hCandidates
  · cases hCandidates
    have hQuiet : ∀ ex ∈ exchanges, ¬Raises (matchRequest env.toRuntime ex (endpoint m.toEndpointMatch)) := by
      intro ex hEx hRaises
      exact not_raises_iff.mpr ⟨_, hHint⟩ (raises_filterM.mpr ⟨ex, hEx, hRaises⟩)
    have hFilter := Except.ok.inj ((filterM_accepts hQuiet).symm.trans hHint)
    exact List.mem_of_mem_filter (hFilter ▸ List.mem_singleton_self ex)
  · cases hCandidates.symm.trans hHint
    exact List.mem_singleton_self ex

theorem raises_eventMatches {m : EventMatch} (h : m.toEndpointMatch.Loads env.toRuntime)
    {candidates : List NetworkExchange} : Raises (eventMatches env m candidates) ↔
      ∃ ex ∈ candidates, QueryUnread env.toRuntime ex m.toEndpointMatch := by
  rw [eventMatches]
  split
  · rw [raises_filterM]
    apply exists_congr
    intro ex
    rw [raises_bind_ok (fun _ => not_raises_pure _), raises_dictMismatch h]
  · rename_i hNone
    refine iff_of_false (not_raises_ok _) ?_
    rintro ⟨ex, -, hQuery, -⟩
    simp [hQuery] at hNone

theorem raises_evalEvent {m : EventMatch} (h : m.toEndpointMatch.Loads env.toRuntime) :
    Raises (evalEvent env exchanges m) ↔ EventAborts env exchanges m := by
  rw [evalEvent, raises_bind, raises_eventCandidates, EventAborts]
  by_cases hEndpoint : m.endpointIsEmpty = false ∧
      ∃ ex ∈ exchanges, Unmatchable env.toRuntime ex (endpoint m.toEndpointMatch)
  · exact iff_of_true (.inl hEndpoint) (.inl hEndpoint)
  rw [or_iff_right hEndpoint, or_iff_right hEndpoint]
  apply exists_congr
  intro candidates
  apply and_congr_right
  intro hCandidates
  rw [raises_bind, raises_eventMatches h]
  refine or_iff_left_of_imp ?_
  rintro ⟨kept, -, hRest⟩
  have hHint : Raises (dictionaryHint env.toRuntime exchanges m.toEndpointMatch) := by
    dsimp only at hRest
    split at hRest
    · exact absurd hRest (not_raises_pure _)
    have hHint : Raises (eventHint env exchanges m) := (raises_bind_ok fun _ => not_raises_pure _).mp hRest
    rw [eventHint] at hHint
    split at hHint
    · exact hHint
    · exact absurd hHint (not_raises_ok _)
  obtain ⟨-, ⟨ex, hEx, hBad⟩ | ⟨ex, hOnly, hUnread⟩⟩ := (raises_dictionaryHint h).mp hHint
  · cases hEmpty : m.endpointIsEmpty with
    | true => exact absurd hBad (not_unmatchable_empty hEmpty ex)
    | false => exact absurd ⟨hEmpty, ex, hEx, hBad⟩ hEndpoint
  · exact ⟨ex, mem_eventCandidates hCandidates hOnly, hUnread⟩

theorem raises_firstMatch {req : RequestMatch} (h : req.toEndpointMatch.Loads env.toRuntime) :
    Raises (firstMatch env req exchanges) ↔ FirstStops env exchanges req := by
  induction exchanges with
  | nil =>
    refine iff_of_false (not_raises_ok _) ?_
    rintro ⟨before, ex, after, hEq, -⟩
    simp at hEq
  | cons ex rest ih =>
    rw [firstMatch, raises_bind, raises_matchRequest h]
    constructor
    · rintro (hBad | ⟨accepted, hAccepted, hRest⟩)
      · exact ⟨[], ex, rest, rfl, List.forall_mem_nil _, hBad⟩
      · cases accepted with
        | true => exact absurd hRest (not_raises_pure _)
        | false =>
          obtain ⟨before, ex', after, rfl, hBefore, hBad⟩ := ih.mp hRest
          exact ⟨ex :: before, ex', after, rfl, List.forall_mem_cons.mpr ⟨hAccepted, hBefore⟩, hBad⟩
    · rintro ⟨before, ex', after, hEq, hBefore, hBad⟩
      cases before with
      | nil =>
        cases hEq
        exact .inl hBad
      | cons passed before =>
        cases hEq
        obtain ⟨hPassed, hBefore⟩ := List.forall_mem_cons.mp hBefore
        exact .inr ⟨false, hPassed, ih.mpr ⟨before, ex', after, rfl, hBefore, hBad⟩⟩

theorem raises_loadsOr {text : String} : Raises (loadsOr env text) ↔ TooDeep env text := by
  rw [loadsOr, TooDeep]
  cases env.loads text with
  | some value => exact iff_of_false (not_raises_ok _) nofun
  | none =>
    cases env.deep text with
    | true => exact iff_of_true (raises_error _) ⟨rfl, rfl⟩
    | false => exact iff_of_false (not_raises_ok _) nofun

theorem raises_loadSchema {schemas : String → Confined FileText} {path : String} :
    Raises (loadSchema env schemas path) ↔ SchemaRefused env schemas path := by
  rw [loadSchema.eq_def, SchemaRefused]
  cases schemas path with
  | refused => exact iff_of_true (raises_error _) (.inl rfl)
  | escapes => exact iff_of_false (not_raises_ok _) nofun
  | inside found =>
    cases found with
    | refused => exact iff_of_true (raises_error _) (.inr (.inl rfl))
    | missing => exact iff_of_false (not_raises_ok _) nofun
    | file content =>
      cases content with
      | unreadable => exact iff_of_false (not_raises_ok _) nofun
      | undecodable => exact iff_of_false (not_raises_ok _) nofun
      | text content =>
        dsimp only
        rw [raises_bind_ok, raises_loadsOr]
        · simp
        · intro parsed
          cases parsed with
          | none => exact not_raises_pure _
          | some schema => exact not_raises_pure _

theorem raises_evalResponseSchema {m : ResponseSchemaMatch} {schemas : String → Confined FileText}
    (h : m.request.toEndpointMatch.Loads env.toRuntime) :
    Raises (evalResponseSchema env exchanges m (some schemas)) ↔ SchemaAborts env exchanges schemas m := by
  rw [evalResponseSchema.eq_def]
  dsimp only
  rw [raises_bind, raises_firstMatch h]
  constructor
  · rintro (hStops | ⟨first, hFirst, hRest⟩)
    · exact .request hStops
    cases first with
    | none => exact absurd hRest (not_raises_pure _)
    | some ex =>
      obtain hSchema | ⟨schema, hSchema, hRest⟩ := raises_bind.mp hRest
      · exact .schema hFirst (raises_loadSchema.mp hSchema)
      cases schema with
      | error reason => exact absurd hRest (not_raises_pure _)
      | ok schema =>
        dsimp only at hRest
        split at hRest
        · exact absurd hRest (not_raises_pure _)
        rename_i body hBody
        obtain hLoads | ⟨parsed, -, hRest⟩ := raises_bind.mp hRest
        · exact .body hFirst hSchema hBody (raises_loadsOr.mp hLoads)
        · cases parsed with
          | none => exact absurd hRest (not_raises_pure _)
          | some value => exact absurd hRest (not_raises_pure _)
  · intro hAborts
    cases hAborts with
    | request hStops => exact .inl hStops
    | schema hFirst hRefused =>
      exact .inr ⟨_, hFirst, raises_bind.mpr (.inl (raises_loadSchema.mpr hRefused))⟩
    | body hFirst hSchema hBody hDeep =>
      refine .inr ⟨_, hFirst, raises_bind.mpr (.inr ⟨_, hSchema, ?_⟩)⟩
      simp only [hBody]
      exact raises_bind.mpr (.inl (raises_loadsOr.mpr hDeep))

/-! ## Goldens -/

theorem raises_compareFile {screen : Frame ℚ} {file : FileText} :
    Raises (compareFile env elements screen file) ↔ GoldenRefused env elements file := by
  cases file with
  | unreadable => exact iff_of_true (raises_error _) .unreadable
  | undecodable => exact iff_of_true (raises_error _) .undecodable
  | text content =>
    rw [compareFile.eq_def]
    dsimp only
    cases hLoads : env.loads content with
    | none => exact iff_of_true (raises_error _) (.json hLoads)
    | some raw =>
      dsimp only
      refine Iff.trans (b := Raises (Evidence.Golden.loadGolden env.golden raw >>= fun golden =>
        Evidence.Golden.compareGolden env.golden golden elements screen)) ?_
        (Evidence.Golden.raises_load_and_compare.trans ?_)
      · split
        · rename_i result hResult
          rw [hResult]
          exact iff_of_false (not_raises_ok _) (not_raises_ok _)
        · rename_i e hError
          rw [hError]
          exact iff_of_true (raises_error _) (raises_error _)
      constructor
      · intro h
        cases raw with
        | dict entries =>
          obtain ⟨entry, hMem, hInvalid⟩ | ⟨cid, data, actual, hMem, hActual, hTraits⟩ := h entries rfl
          · exact .entry hLoads hMem hInvalid
          · exact .traits hLoads hMem hActual hTraits
        | _ => exact .top hLoads (by rintro _ ⟨⟩)
      · intro h entries hEq
        subst hEq
        cases h with
        | json hNone => cases hLoads.symm.trans hNone
        | top hSome hTop =>
          cases hLoads.symm.trans hSome
          exact absurd rfl (hTop entries)
        | entry hSome hMem hInvalid =>
          cases hLoads.symm.trans hSome
          exact .inl ⟨_, hMem, hInvalid⟩
        | traits hSome hMem hActual hTraits =>
          cases hLoads.symm.trans hSome
          exact .inr ⟨_, _, _, hMem, hActual, hTraits⟩

theorem raises_evalGolden {path : String} {ctx : GoldenContext} :
    Raises (evalGolden env elements path (some ctx)) ↔ GoldenAborts env elements ctx path := by
  rw [evalGolden.eq_def, GoldenAborts]
  dsimp only
  cases ctx.goldens path with
  | refused => exact iff_of_true (raises_error _) (.inl rfl)
  | escapes => exact iff_of_false (not_raises_ok _) (by simp)
  | inside found =>
    cases found with
    | refused => exact iff_of_true (raises_error _) (.inr (.inl rfl))
    | missing => exact iff_of_false (not_raises_ok _) (by simp)
    | file file =>
      dsimp only
      rw [raises_bind_ok (fun _ => not_raises_pure _), raises_compareFile]
      simp

end Kinds

end Bajutsu.Assertions
