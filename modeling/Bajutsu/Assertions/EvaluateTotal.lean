import Bajutsu.Assertions.Malformed

/-!
# Evaluation is not total

A block is evaluated to one result for each assertion, in order, exactly where no assertion comes to something that its
evaluator lets through. A request that is given an exchange aborts where it would for itself.
-/

namespace Bajutsu.Assertions

open Drivers Raising

/-! ## The block of requests -/

section Bare

variable {rt : Runtime} {exchanges : List NetworkExchange} {bare : List (Nat × RequestMatch)}

theorem raises_requestAssignmentResult {n : Nat} {req : RequestMatch} {place : Option (Fin n)} {matchedAny : Bool}
    (h : req.toEndpointMatch.Loads rt) : Raises (requestAssignmentResult rt exchanges req place matchedAny) ↔
      place = none ∧ matchedAny = false ∧ HintUnread rt exchanges req.toEndpointMatch := by
  rw [requestAssignmentResult.eq_def]
  cases place with
  | some j => exact iff_of_false (not_raises_ok _) nofun
  | none =>
    cases matchedAny with
    | true => exact iff_of_false (not_raises_ok _) nofun
    | false =>
      rw [raises_bind_ok (fun _ => not_raises_pure _), raises_dictionaryHint h]
      simp

/-- The requests with their exchanges, and whether any matches. -/
def placed (bare : List (Nat × RequestMatch)) (order : List (Option (Fin exchanges.length))) (had : List Bool) :
    List (((Nat × RequestMatch) × Option (Fin exchanges.length)) × Bool) :=
  (bare.zip order).zip had

theorem mem_placed {assigned : Fin (bare.map Prod.snd).length → Option (Fin exchanges.length)} {any : RequestMatch → Bool}
    {x : ((Nat × RequestMatch) × Option (Fin exchanges.length)) × Bool} :
    x ∈ placed bare ((List.finRange (bare.map Prod.snd).length).map assigned) ((bare.map Prod.snd).map any) ↔
      ∃ i : Fin (bare.map Prod.snd).length,
        x = ((bare.get (i.cast (List.length_map _)), assigned i), any (bare.get (i.cast (List.length_map _))).2) := by
  rw [placed, List.mem_iff_getElem]
  simp only [List.getElem_zip, List.length_zip, List.length_map, List.length_finRange, min_self, List.getElem_map,
    List.getElem_finRange]
  constructor
  · rintro ⟨i, hi, rfl⟩
    exact ⟨⟨i, by simpa using hi⟩, rfl⟩
  · rintro ⟨i, rfl⟩
    exact ⟨i, by simpa using i.isLt, rfl⟩

/-- Where every request can be read, each has an exchange that it accepts, or none. -/
theorem assignBare_eq (hTwo : 2 ≤ bare.length) (h : Readable rt exchanges (bare.map Prod.snd)) :
    ∃ items : List (((Nat × RequestMatch) × Option (Fin exchanges.length)) × Bool),
      assignBare rt exchanges bare =
        (items.mapM fun x => do return (x.1.1.1, ← requestAssignmentResult rt exchanges x.1.1.2 x.1.2 x.2)) ∧
      (∀ x ∈ items, x.1.1 ∈ bare ∧ x.2 = exchanges.any (accepts rt x.1.1.2) ∧
        ∀ j, x.1.2 = some j → Accepts rt x.1.1.2 exchanges[j]) ∧
      ∀ item ∈ bare, ∃ x ∈ items, x.1.1 = item := by
  obtain ⟨assigned, hAssign, hLargest⟩ := assignRequests_eq h
  refine ⟨placed bare ((List.finRange (bare.map Prod.snd).length).map assigned)
    ((bare.map Prod.snd).map fun req => exchanges.any (accepts rt req)), ?_, ?_, ?_⟩
  · rw [assignBare, if_pos hTwo, hAssign]
    rfl
  · intro x hMem
    obtain ⟨i, rfl⟩ := mem_placed.mp hMem
    refine ⟨List.get_mem .., rfl, fun j hPlace => ?_⟩
    have hAccepts := hLargest.oneToOne.edge hPlace
    simpa using hAccepts
  · intro item hMem
    obtain ⟨i, hi, rfl⟩ := List.getElem_of_mem hMem
    exact ⟨_, mem_placed.mpr ⟨⟨i, by simpa using hi⟩, rfl⟩, rfl⟩

theorem not_readable_iff {reqs : List RequestMatch} (hLoads : ∀ req ∈ reqs, req.toEndpointMatch.Loads rt) :
    ¬Readable rt exchanges reqs ↔ ∃ req ∈ reqs, ∃ ex ∈ exchanges, Unmatchable rt ex req := by
  rw [Readable]
  push Not
  apply exists_congr
  intro req
  apply and_congr_right
  intro hReq
  apply exists_congr
  intro ex
  rw [← raises_matchRequest (hLoads req hReq)]
  rfl

/-- The requests without a count abort together where one of them would alone. -/
theorem raises_assignBare (hTwo : 2 ≤ bare.length) (hLoads : ∀ item ∈ bare, item.2.toEndpointMatch.Loads rt)
    (hCount : ∀ item ∈ bare, item.2.count = none) :
    Raises (assignBare rt exchanges bare) ↔ ∃ item ∈ bare, RequestAborts rt exchanges item.2 := by
  have hLoads' : ∀ req ∈ bare.map Prod.snd, req.toEndpointMatch.Loads rt := List.forall_mem_map.mpr hLoads
  by_cases hRead : Readable rt exchanges (bare.map Prod.snd)
  · have hQuiet : ∀ item ∈ bare, ∀ ex ∈ exchanges, ¬Raises (matchRequest rt ex item.2) := by
      rintro item hItem ex hEx ⟨e, hError⟩
      exact hRead item.2 (List.mem_map_of_mem hItem) ex hEx e hError
    have hNone : ∀ item ∈ bare, exchanges.any (accepts rt item.2) = false ↔
        ∀ ex ∈ exchanges, matchRequest rt ex item.2 = .ok false := by
      intro item hItem
      rw [← noneAccepted_iff (hQuiet item hItem), List.filter_eq_nil_iff, List.any_eq_false]
    have hAborts : ∀ item ∈ bare, RequestAborts rt exchanges item.2 ↔
        (∀ ex ∈ exchanges, matchRequest rt ex item.2 = .ok false) ∧ HintUnread rt exchanges item.2.toEndpointMatch := by
      intro item hItem
      rw [RequestAborts, or_iff_right, hCount item hItem, eq_self, true_and]
      rintro ⟨ex, hEx, hBad⟩
      exact hQuiet item hItem ex hEx ((raises_matchRequest (hLoads item hItem)).mpr hBad)
    obtain ⟨items, hAssign, hItems, hAll⟩ := assignBare_eq hTwo hRead
    rw [hAssign, raises_mapM]
    constructor
    · rintro ⟨x, hMem, hRaises⟩
      obtain ⟨hBare, hAny, -⟩ := hItems x hMem
      rw [raises_bind_ok (fun _ => not_raises_pure _), raises_requestAssignmentResult (hLoads _ hBare)] at hRaises
      obtain ⟨-, hFalse, hHint⟩ := hRaises
      exact ⟨x.1.1, hBare, (hAborts _ hBare).mpr ⟨(hNone _ hBare).mp (hAny ▸ hFalse), hHint⟩⟩
    · rintro ⟨item, hBare, hAborted⟩
      obtain ⟨hFalse, hHint⟩ := (hAborts item hBare).mp hAborted
      obtain ⟨x, hMem, rfl⟩ := hAll item hBare
      obtain ⟨-, hAny, hPlace⟩ := hItems x hMem
      refine ⟨x, hMem, (raises_bind_ok fun _ => not_raises_pure _).mpr ?_⟩
      refine (raises_requestAssignmentResult (hLoads _ hBare)).mpr ⟨?_, hAny.trans ((hNone _ hBare).mpr hFalse), hHint⟩
      cases hIs : x.1.2 with
      | none => rfl
      | some j => cases (hFalse exchanges[j] (List.getElem_mem j.isLt)).symm.trans (hPlace j hIs)
  · obtain ⟨req, hReq, ex, hEx, hBad⟩ := (not_readable_iff hLoads').mp hRead
    obtain ⟨item, hItem, rfl⟩ := List.mem_map.mp hReq
    refine iff_of_true ?_ ⟨item, hItem, .inl ⟨ex, hEx, hBad⟩⟩
    obtain ⟨e, hError⟩ := assignRequests_error hRead
    rw [assignBare, if_pos hTwo, hError]
    exact raises_error e

theorem assignBare_get {assigned : List (Nat × AssertionResult)} (h : assignBare rt exchanges bare = .ok assigned)
    {i : Nat} {r : AssertionResult} (hGet : PyValue.get assigned i = some r) :
    2 ≤ bare.length ∧ ∃ req, (i, req) ∈ bare ∧ r.kind = "request" ∧ r.detail = "request " ++ requestLabel rt req true ∧
      (r.ok = true → ∃ ex ∈ exchanges, Accepts rt req ex) := by
  by_cases hTwo : 2 ≤ bare.length
  · refine ⟨hTwo, ?_⟩
    have hRead : Readable rt exchanges (bare.map Prod.snd) := by
      by_contra hNot
      obtain ⟨e, hError⟩ := assignRequests_error hNot
      rw [assignBare, if_pos hTwo, hError] at h
      cases h
    obtain ⟨items, hAssign, hItems, -⟩ := assignBare_eq hTwo hRead
    obtain ⟨x, hMem, hResult⟩ := PyValue.exists_of_mapM_ok (hAssign ▸ h) (i, r) (PyValue.get_mem hGet)
    obtain ⟨made, hMade, hEq⟩ := PyValue.bind_eq_ok hResult
    cases hEq
    obtain ⟨hBare, -, hPlace⟩ := hItems x hMem
    refine ⟨x.1.1.2, hBare, ?_⟩
    rw [requestAssignmentResult.eq_def] at hMade
    dsimp only at hMade
    split at hMade
    · rename_i j hIs
      cases hMade
      exact ⟨rfl, rfl, fun _ => ⟨exchanges[j], List.getElem_mem j.isLt, hPlace j hIs⟩⟩
    · cases hMade
      exact ⟨rfl, rfl, (by rintro ⟨⟩)⟩
    · obtain ⟨hint, -, hMade⟩ := PyValue.bind_eq_ok hMade
      cases hMade
      exact ⟨rfl, rfl, (by rintro ⟨⟩)⟩
  · rw [assignBare, if_neg hTwo] at h
    cases h
    cases hGet

end Bare

/-! ## The kind of a result -/

section KindOf

variable {rt : Runtime} {env : Environment} {elements : List (Element ℚ)} {exchanges : List NetworkExchange}

theorem kind_evalRequest {req : RequestMatch} :
    Gives (fun r => r.kind = "request") (evalRequest rt exchanges req) := by
  rw [evalRequest]
  apply gives_bind
  intro n _
  dsimp only
  split
  · split
    · exact gives_pure rfl
    · exact gives_pure rfl
  · split
    · exact gives_pure rfl
    · apply gives_bind
      intro hint _
      exact gives_pure rfl

theorem kind_sequenceFrom {all seq : List RequestMatch} {pos i : Nat} :
    Gives (fun r => r.kind = "requestSequence") (sequenceFrom rt exchanges all pos i seq) := by
  induction seq generalizing pos i with
  | nil => exact gives_ok rfl
  | cons req seq ih =>
    rw [sequenceFrom]
    apply gives_bind
    intro j _
    split
    · exact gives_pure rfl
    · exact ih

theorem kind_evalText {kind : String} {field : Element ℚ → Option String} {m : TextMatch} :
    Gives (fun r => r.kind = kind) (evalText env elements kind field m) := by
  rw [evalText]
  apply gives_bind
  intro found _
  cases found with
  | error reason => exact gives_pure rfl
  | ok el =>
    apply gives_bind
    intro ok _
    exact gives_pure rfl

theorem kind_evalState {kind : String} {holds : List String → Bool} {sel : Selector} :
    Gives (fun r => r.kind = kind) (evalState env elements kind holds sel) := by
  rw [evalState]
  apply gives_bind
  intro found _
  cases found with
  | error reason => exact gives_pure rfl
  | ok el => exact gives_pure rfl

theorem kind_evalAttribute {read : Option AttributeRead} {m : AttributeMatch} :
    Gives (fun r => r.kind = "attribute") (evalAttribute env read m) := by
  rw [evalAttribute.eq_def]
  split
  · exact gives_ok rfl
  · exact gives_ok rfl
  · split
    · exact gives_ok rfl
    · apply gives_bind
      intro ok _
      exact gives_pure rfl

theorem kind_evalEvent {m : EventMatch} : Gives (fun r => r.kind = "event") (evalEvent env exchanges m) := by
  rw [evalEvent]
  apply gives_bind
  intro candidates _
  apply gives_bind
  intro kept _
  dsimp only
  split
  · exact gives_pure rfl
  · apply gives_bind
    intro hint _
    exact gives_pure rfl

theorem kind_evalResponseSchema {m : ResponseSchemaMatch} {ctx : Option (String → Confined FileText)} :
    Gives (fun r => r.kind = "responseSchema") (evalResponseSchema env exchanges m ctx) := by
  rw [evalResponseSchema.eq_def]
  cases ctx with
  | none => exact gives_ok rfl
  | some schemas =>
    apply gives_bind
    intro first _
    cases first with
    | none => exact gives_pure rfl
    | some ex =>
      apply gives_bind
      intro schema _
      cases schema with
      | error reason => exact gives_pure rfl
      | ok schema =>
        dsimp only
        split
        · exact gives_pure rfl
        apply gives_bind
        intro parsed _
        cases parsed with
        | none => exact gives_pure rfl
        | some value =>
          apply gives_pure
          rw [validateInstance.eq_def]
          split
          · rfl
          · split
            all_goals rfl

theorem kind_evalVisual {a : VisualMatch} {ctx : Option VisualContext} :
    Gives (fun r => r.kind = "visual") (evalVisual env elements ctx a) := by
  rw [evalVisual.eq_def]
  cases ctx with
  | none => exact gives_ok rfl
  | some visual =>
    apply gives_bind
    intro prepared _
    cases prepared with
    | error reason => exact gives_pure rfl
    | ok prepared =>
      dsimp only
      split
      · exact gives_error _ _
      · exact gives_pure rfl
      · exact gives_pure rfl
      split
      · exact gives_pure rfl
      apply gives_bind
      intro masks _
      cases masks with
      | error reason => exact gives_pure rfl
      | ok masks =>
        apply gives_bind
        intro result _
        exact gives_pure rfl

theorem kind_evalClipboard {clipboard : Option String} {m : ClipboardMatch} :
    Gives (fun r => r.kind = "clipboard") (evalClipboard env clipboard m) := by
  rw [evalClipboard.eq_def]
  cases clipboard with
  | none => exact gives_ok rfl
  | some text =>
    apply gives_bind
    intro ok _
    exact gives_pure rfl

theorem kind_evalGolden {path : String} {ctx : Option GoldenContext} :
    Gives (fun r => r.kind = "golden") (evalGolden env elements path ctx) := by
  rw [evalGolden.eq_def]
  cases ctx with
  | none => exact gives_ok rfl
  | some goldens =>
    dsimp only
    split
    · exact gives_error _ _
    · exact gives_error _ _
    · exact gives_ok rfl
    · exact gives_ok rfl
    · apply gives_bind
      intro result _
      apply gives_pure
      split
      · rfl
      · rfl

theorem kind_evaluateKind {ctx : EvalContext} {a : Assertion OtherKind} :
    Gives (fun r => r.kind = kindName a) (evaluateKind env elements exchanges ctx a) := by
  cases a with
  | request req => exact kind_evalRequest
  | requestSequence seq => exact kind_sequenceFrom
  | other a =>
    rw [evaluateKind, evaluateOne]
    cases a with
    | «exists» sel negate =>
      apply gives_bind
      intro found _
      exact gives_pure rfl
    | count m =>
      apply gives_bind
      intro found _
      exact gives_pure rfl
    | value m => exact kind_evalText
    | label m => exact kind_evalText
    | enabled sel =>
      rw [evalOther]
      exact kind_evalState
    | disabled sel =>
      rw [evalOther]
      exact kind_evalState
    | selected sel =>
      rw [evalOther]
      exact kind_evalState
    | event m => exact kind_evalEvent
    | responseSchema m => exact kind_evalResponseSchema
    | visual m => exact kind_evalVisual
    | clipboard m => exact kind_evalClipboard
    | «attribute» m => exact kind_evalAttribute
    | golden path => exact kind_evalGolden

end KindOf

/-! ## The block -/

/-- The matchers of an assertion, whose patterns are compiled as it is loaded. -/
def endpoints : Assertion OtherKind → List EndpointMatch
  | .request req => [req.toEndpointMatch]
  | .requestSequence seq => seq.map (·.toEndpointMatch)
  | .other (.event m) => [m.toEndpointMatch]
  | .other (.responseSchema m) => [m.request.toEndpointMatch]
  | _ => []

/-- An assertion that the scenario models accept. -/
def LoadedAssertion (rt : Runtime) : Type := { a : Assertion OtherKind // ∀ m ∈ endpoints a, m.Loads rt }

section Block

variable (env : Environment) (elements : List (Element ℚ)) (exchanges : List NetworkExchange) (ctx : EvalContext)

/-- What an assertion's evaluation comes to ends the evaluation of the block. -/
def Aborts : Assertion OtherKind → Prop
  | .request req => RequestAborts env.toRuntime exchanges req
  | .requestSequence seq => SequenceStops env.toRuntime exchanges seq
  | .other (.exists sel _) => SelectorRefused env elements sel
  | .other (.value m) => TextAborts env elements Element.value m
  | .other (.label m) => TextAborts env elements Element.label m
  | .other (.count m) => SelectorRefused env elements m.sel
  | .other (.enabled sel) => SelectorRefused env elements sel
  | .other (.disabled sel) => SelectorRefused env elements sel
  | .other (.selected sel) => SelectorRefused env elements sel
  | .other (.event m) => EventAborts env exchanges m
  | .other (.responseSchema m) => ∃ schemas, ctx.schema = some schemas ∧ SchemaAborts env exchanges schemas m
  | .other (.visual m) => ∃ visual, ctx.visual = some visual ∧ VisualAborts env visual elements m
  | .other (.clipboard m) => ClipboardAborts env ctx.clipboard m
  | .other (.attribute m) => AttributeAborts env (ctx.attributes (env.selKey m.sel, m.name)) m
  | .other (.golden path) => ∃ goldens, ctx.golden = some goldens ∧ GoldenAborts env elements goldens path

/-- A result of an assertion's own. -/
structure Answers (a : Assertion OtherKind) (r : AssertionResult) : Prop where
  kind : r.kind = kindName a
  own : evaluateKind env elements exchanges ctx a = .ok r ∨
    ∃ req, a = .request req ∧ req.count = none ∧ r.detail = "request " ++ requestLabel env.toRuntime req true
  malformed : Malformed env elements ctx a → r.ok = false

/-- A result of its own for every assertion, in order. -/
def Total (assertions : List (Assertion OtherKind)) : Prop :=
  ∃ results, evaluateBlock env elements exchanges ctx assertions = .ok results ∧
    List.Forall₂ (Answers env elements exchanges ctx) assertions results

variable {env : Environment} {elements : List (Element ℚ)} {exchanges : List NetworkExchange} {ctx : EvalContext}

theorem raises_evaluateKind {a : Assertion OtherKind} (h : ∀ m ∈ endpoints a, m.Loads env.toRuntime) :
    Raises (evaluateKind env elements exchanges ctx a) ↔ Aborts env elements exchanges ctx a := by
  cases a with
  | request req => exact raises_evalRequest (h _ (List.mem_singleton_self _))
  | requestSequence seq => exact raises_evalRequestSequence (List.forall_mem_map.mp h)
  | other a =>
    cases a with
    | «exists» sel negate => exact raises_evalExists
    | value m => exact raises_evalText
    | label m => exact raises_evalText
    | count m => exact raises_evalCount
    | enabled sel =>
      rw [evaluateKind, evaluateOne, evalOther]
      exact raises_evalState
    | disabled sel =>
      rw [evaluateKind, evaluateOne, evalOther]
      exact raises_evalState
    | selected sel =>
      rw [evaluateKind, evaluateOne, evalOther]
      exact raises_evalState
    | event m => exact raises_evalEvent (h _ (List.mem_singleton_self _))
    | responseSchema m =>
      rw [evaluateKind, evaluateOne, evalOther, Aborts]
      cases ctx.schema with
      | none => exact iff_of_false (not_raises_ok _) (by rintro ⟨_, ⟨⟩, _⟩)
      | some schemas => simpa using raises_evalResponseSchema (h _ (List.mem_singleton_self _))
    | visual m =>
      rw [evaluateKind, evaluateOne, evalOther, Aborts]
      cases ctx.visual with
      | none => exact iff_of_false (not_raises_ok _) (by rintro ⟨_, ⟨⟩, _⟩)
      | some visual => simpa using raises_evalVisual
    | clipboard m => exact raises_evalClipboard
    | «attribute» m => exact raises_evalAttribute
    | golden path =>
      rw [evaluateKind, evaluateOne, evalOther, Aborts]
      cases ctx.golden with
      | none => exact iff_of_false (not_raises_ok _) (by rintro ⟨_, ⟨⟩, _⟩)
      | some goldens => simpa using raises_evalGolden

theorem mem_bareOf {assertions : List (Assertion OtherKind)} {i : Nat} {req : RequestMatch} :
    (i, req) ∈ bareOf assertions ↔ assertions[i]? = some (.request req) ∧ req.count = none := by
  rw [bareOf, List.mem_filterMap]
  constructor
  · rintro ⟨⟨a, j⟩, hMem, hIs⟩
    have hAt := List.mk_mem_zipIdx_iff_getElem?.mp hMem
    cases a with
    | request found =>
      dsimp only at hIs
      split at hIs
      · rename_i hCount
        cases hIs
        exact ⟨hAt, hCount⟩
      · cases hIs
    | requestSequence seq => cases hIs
    | other a => cases hIs
  · rintro ⟨hAt, hCount⟩
    exact ⟨(.request req, i), List.mk_mem_zipIdx_iff_getElem?.mpr hAt, by simp [hCount]⟩

section Loaded

variable {assertions : List (Assertion OtherKind)} (h : ∀ a ∈ assertions, ∀ m ∈ endpoints a, m.Loads env.toRuntime)

include h

theorem loads_bareOf : ∀ item ∈ bareOf assertions, item.2.toEndpointMatch.Loads env.toRuntime := by
  rintro ⟨i, req⟩ hMem
  obtain ⟨hAt, -⟩ := mem_bareOf.mp hMem
  exact h _ (List.mem_of_getElem? hAt) _ (List.mem_singleton_self _)

theorem raises_evaluateBlock : Raises (evaluateBlock env elements exchanges ctx assertions) ↔
    ∃ a ∈ assertions, Aborts env elements exchanges ctx a := by
  have hCount : ∀ item ∈ bareOf assertions, item.2.count = none := by
    rintro ⟨i, req⟩ hMem
    exact (mem_bareOf.mp hMem).2
  rw [evaluateBlock, evaluate, raises_bind]
  constructor
  · rintro (hBare | ⟨assigned, -, hRest⟩)
    · have hTwo : 2 ≤ (bareOf assertions).length := by
        by_contra hFew
        rw [assignBare, if_neg hFew] at hBare
        exact not_raises_pure _ hBare
      obtain ⟨⟨i, req⟩, hMem, hAborts⟩ := (raises_assignBare hTwo (loads_bareOf h) hCount).mp hBare
      exact ⟨.request req, List.mem_of_getElem? (mem_bareOf.mp hMem).1, hAborts⟩
    · obtain ⟨⟨a, i⟩, hMem, hRaises⟩ := raises_mapM.mp hRest
      have hAt := List.mem_of_getElem? (List.mk_mem_zipIdx_iff_getElem?.mp hMem)
      dsimp only at hRaises
      split at hRaises
      · exact absurd hRaises (not_raises_ok _)
      · exact ⟨a, hAt, (raises_evaluateKind (h a hAt)).mp hRaises⟩
  · rintro ⟨a, hMem, hAborts⟩
    obtain ⟨i, hi, rfl⟩ := List.getElem_of_mem hMem
    cases hBare : assignBare env.toRuntime exchanges (bareOf assertions) with
    | error e => exact .inl (raises_error e)
    | ok assigned =>
      refine .inr ⟨assigned, rfl, raises_mapM.mpr ⟨(assertions[i], i), ?_, ?_⟩⟩
      · exact List.mk_mem_zipIdx_iff_getElem?.mpr (List.getElem?_eq_getElem hi)
      dsimp only
      split
      · -- A request that aborts has been given nothing.
        rename_i r hGet
        obtain ⟨hTwo, req, hItem, -⟩ := assignBare_get hBare hGet
        obtain ⟨hAt, -⟩ := mem_bareOf.mp hItem
        rw [List.getElem?_eq_getElem hi] at hAt
        rw [Option.some.inj hAt] at hAborts
        have hRaises := (raises_assignBare hTwo (loads_bareOf h) hCount).mpr ⟨(i, req), hItem, hAborts⟩
        exact absurd hRaises (not_raises_iff.mpr ⟨assigned, hBare⟩)
      · exact (raises_evaluateKind (h _ hMem)).mpr hAborts

end Loaded

section Results

variable {assertions : List (Assertion OtherKind)} {results : List AssertionResult}

theorem answers_bare {req : RequestMatch} {r : AssertionResult} (hCount : req.count = none) (hKind : r.kind = "request")
    (hDetail : r.detail = "request " ++ requestLabel env.toRuntime req true)
    (hOk : r.ok = true → ∃ ex ∈ exchanges, Accepts env.toRuntime req ex) :
    Answers env elements exchanges ctx (.request req) r where
  kind := hKind
  own := .inr ⟨req, rfl, hCount, hDetail⟩
  malformed hMalformed := by
    cases hMalformed with
    | pattern hBad =>
      obtain ⟨pattern, hPattern, hBad⟩ := hBad
      by_contra hNot
      obtain ⟨ex, -, hAccepts⟩ := hOk (by simpa using hNot)
      exact matchRequest_refused hPattern hBad hAccepts

theorem answers_of_evaluateBlock (h : evaluateBlock env elements exchanges ctx assertions = .ok results)
    (hNone : ∀ a ∈ assertions, ¬Overlooked env elements ctx a) :
    List.Forall₂ (Answers env elements exchanges ctx) assertions results := by
  rw [evaluateBlock, evaluate] at h
  obtain ⟨assigned, hBare, hResults⟩ := PyValue.bind_eq_ok h
  have hAll := (List.forall₂_and_left (p := (· ∈ assertions.zipIdx)) _ _).mpr ⟨fun _ => id, mapM_eq_ok_iff.mp hResults⟩
  have hMap : assertions = assertions.zipIdx.map Prod.fst := (List.zipIdx_map_fst 0 assertions).symm
  rw [hMap, List.forall₂_map_left_iff]
  refine hAll.imp ?_
  rintro ⟨a, i⟩ r ⟨hMem, hIs⟩
  have hAt := List.mk_mem_zipIdx_iff_getElem?.mp hMem
  dsimp only at hIs
  split at hIs
  · rename_i found hGet
    cases hIs
    obtain ⟨-, req, hItem, hKind, hDetail, hOk⟩ := assignBare_get hBare hGet
    obtain ⟨hReq, hCount⟩ := mem_bareOf.mp hItem
    cases hAt.symm.trans hReq
    exact answers_bare hCount hKind hDetail hOk
  · exact ⟨kind_evaluateKind r hIs, .inl hIs,
      fun hMalformed => fails_of_malformed hMalformed (hNone a (List.mem_of_getElem? hAt)) r hIs⟩

theorem not_overlooked_of_answers {a : Assertion OtherKind} {r : AssertionResult}
    (h : Answers env elements exchanges ctx a r) : ¬Overlooked env elements ctx a := by
  rintro ⟨hBad, hHolds⟩
  have hFails := h.malformed (.pattern hBad)
  obtain hOwn | ⟨req, rfl, hCount, -⟩ := h.own
  · rw [(passes_iff_holdsAnyway hBad r hOwn).mpr hHolds] at hFails
    cases hFails
  · cases hCount.symm.trans hHolds

end Results

/-- A block has a result for every assertion, in order, and a malformed one fails, exactly where no assertion aborts and
none with a pattern that does not compile holds without coming to it. -/
theorem evaluate_total_iff (env : Environment) (elements : List (Element ℚ)) (exchanges : List NetworkExchange)
    (ctx : EvalContext) (assertions : List (LoadedAssertion env.toRuntime)) :
    Total env elements exchanges ctx (assertions.map Subtype.val) ↔
      ∀ a ∈ assertions, ¬Aborts env elements exchanges ctx a.val ∧ ¬Overlooked env elements ctx a.val := by
  have hLoads : ∀ a ∈ assertions.map Subtype.val, ∀ m ∈ endpoints a, m.Loads env.toRuntime := by
    rintro _ hMem
    obtain ⟨a, -, rfl⟩ := List.mem_map.mp hMem
    exact a.property
  constructor
  · rintro ⟨results, hResults, hAnswers⟩ a hMem
    have hVal : a.val ∈ assertions.map Subtype.val := List.mem_map_of_mem hMem
    constructor
    · intro hAborts
      exact not_raises_iff.mpr ⟨results, hResults⟩ ((raises_evaluateBlock hLoads).mpr ⟨a.val, hVal, hAborts⟩)
    · obtain ⟨r, -, hAnswer⟩ := exists_of_forall₂ hAnswers hVal
      exact not_overlooked_of_answers hAnswer
  · intro hEach
    have hQuiet : ¬Raises (evaluateBlock env elements exchanges ctx (assertions.map Subtype.val)) := by
      rw [raises_evaluateBlock hLoads]
      rintro ⟨_, hMem, hAborts⟩
      obtain ⟨a, hGiven, rfl⟩ := List.mem_map.mp hMem
      exact (hEach a hGiven).1 hAborts
    obtain ⟨results, hResults⟩ := not_raises_iff.mp hQuiet
    refine ⟨results, hResults, answers_of_evaluateBlock hResults ?_⟩
    exact List.forall_mem_map.mpr fun a hMem => (hEach a hMem).2

end Block

/-- The plain runtime, which refuses an opening parenthesis. -/
def plainEnvironment : Environment where
  toRuntime := { plainRuntime with compile := fun pattern =>
    if '(' ∈ pattern.toList then none else plainRuntime.compile pattern }
  deep _ := false
  fnmatchcase pattern text := pattern = text
  selStr _ := ""
  selKey _ := ""
  selRepr _ := ""
  repr := id
  reprTraits := " ".intercalate
  golden := ⟨id, fun _ => ""⟩
  mismatchStr _ := ""
  visual := ⟨fun _ => "", fun _ => ""⟩
  comparePixelmatch _ _ _ := ⟨true, 0, ""⟩
  jsonschema := none
  pillow := none

/-- The clipboard is compared with a pattern that does not compile. -/
theorem evaluate_aborts : ¬∀ env elements exchanges ctx (assertions : List (LoadedAssertion env.toRuntime)),
    Total env elements exchanges ctx (assertions.map Subtype.val) := by
  intro h
  obtain ⟨results, hResults, -⟩ := h plainEnvironment [] [] ⟨none, none, none, some "copied", fun _ => none⟩
    [⟨.other (.clipboard (.matches "(")), nofun⟩]
  have hRaised : evaluateBlock plainEnvironment [] [] ⟨none, none, none, some "copied", fun _ => none⟩
      [.other (.clipboard (.matches "("))] = .error (.badPattern "(") := rfl
  cases hRaised.symm.trans hResults

end Bajutsu.Assertions
