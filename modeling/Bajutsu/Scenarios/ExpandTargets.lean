import Bajutsu.Scenarios.Lexical

/-!
# Targets are stamped by where they are declared

The two targets of a context are those that reach the steps at its chain and the bodies below them. Expansion keeps
them so, step by step: whatever it returns is stamped by its chain, and it refuses a target for another one only where
two of them meet at a step.
-/

namespace Bajutsu.Scenarios

open PyValue Fuelled

variable {M : Models} {R : Resolver M} {maxDepth : Int}

/-! ## The two targets of a context -/

/-- `level` is what reaches the steps at the chain, and `body` what reaches those of a body there. -/
structure Reached (chain : List Frame) (level body : Option String) : Prop where
  level : ∀ target, level = some target ↔ Reaches chain target
  body : ∀ target, body = some target ↔ Reaches (chain ++ [.body .if_]) target

theorem through_nil {chain : List Frame} {target : String} :
    (∃ outer frame inner, chain = outer ++ frame :: inner ∧ frame.declares = some target ∧ Flows frame (inner ++ [])) ↔
      Reaches chain target := by
  simp only [List.append_nil]
  exact Iff.rfl

theorem reaches_body {chain : List Frame} {target : String} :
    Reaches (chain ++ [.body .if_]) target ↔
      ∃ outer frame inner, chain = outer ++ frame :: inner ∧ frame.declares = some target ∧
        Flows frame (inner ++ [.body .if_]) := by
  rw [reaches_concat]
  simp [Frame.declares]

theorem reaches_concat_body {chain : List Frame} {last : Frame} {target : String} :
    Reaches (chain ++ [last] ++ [.body .if_]) target ↔
      (last.declares = some target ∧ Flows last [.body .if_]) ∨
        ∃ outer frame inner, chain = outer ++ frame :: inner ∧ frame.declares = some target ∧
          Flows frame (inner ++ [last, .body .if_]) := by
  rw [reaches_body]
  constructor
  · rintro ⟨outer, frame, inner, hChain, hDeclares, hFlows⟩
    obtain rfl | ⟨front, last', rfl⟩ := List.eq_nil_or_concat inner
    · obtain ⟨-, hLast⟩ := List.append_inj' hChain rfl
      obtain ⟨rfl, -⟩ := List.cons.inj hLast
      exact .inl ⟨hDeclares, hFlows⟩
    · rw [List.concat_eq_append, ← List.cons_append, ← List.append_assoc] at hChain
      obtain ⟨rfl, hLast⟩ := List.append_inj' hChain rfl
      obtain ⟨rfl, -⟩ := List.cons.inj hLast
      rw [List.concat_eq_append, List.append_assoc] at hFlows
      exact .inr ⟨outer, frame, front, rfl, hDeclares, hFlows⟩
  · rintro (⟨hDeclares, hFlows⟩ | ⟨outer, frame, inner, rfl, hDeclares, hFlows⟩)
    · exact ⟨chain, last, [], rfl, hDeclares, hFlows⟩
    · exact ⟨outer, frame, inner ++ [last], by simp, hDeclares, by rwa [List.append_assoc]⟩

theorem reached_nil : Reached [] none none := by
  constructor
  · intro target
    simp [not_reaches_nil]
  · intro target
    rw [reaches_body]
    simp

theorem mergeTarget_ok {caller own target : Option String} {path : List Link} {what : Link}
    (h : mergeTarget caller own path what = .ok target) (t : String) :
    target = some t ↔ own = some t ∨ caller = some t := by
  cases caller with
  | none =>
    cases h
    simp
  | some caller =>
    cases own with
    | none =>
      cases h
      simp
    | some own =>
      rw [mergeTarget] at h
      split at h
      · rename_i hSame
        cases h
        simp [hSame]
      · cases h

theorem mergeTarget_agree {caller own target : Option String} {path : List Link} {what : Link}
    (h : mergeTarget caller own path what = .ok target) {t t' : String} (hOwn : own = some t) (hCaller : caller = some t') :
    t = t' := by
  have hTarget := (mergeTarget_ok h t).mpr (.inl hOwn)
  rw [(mergeTarget_ok h t').mpr (.inr hCaller)] at hTarget
  exact (Option.some.inj hTarget).symm

theorem mergeTarget_error {caller own : Option String} {path : List Link} {what : Link} {refusal : Refusal}
    (h : mergeTarget caller own path what = .error refusal) :
    ∃ t t', refusal = .targetConflict (path ++ [what]) t t' ∧ own = some t ∧ caller = some t' ∧ t ≠ t' := by
  cases caller with
  | none => cases h
  | some caller =>
    cases own with
    | none => cases h
    | some own =>
      rw [mergeTarget] at h
      split at h
      · cases h
      · rename_i hNe
        cases h
        exact ⟨own, caller, rfl, rfl, rfl, hNe⟩

namespace Reached

variable {chain : List Frame} {level body own target : Option String} {path : List Link} {what : Link}

theorem call (h : Reached chain level body) (hMerge : mergeTarget level own path what = .ok target) :
    Reached (chain ++ [.call own]) target target := by
  have hFlows : Flows (.call own) [.body .if_] := ⟨by simp [Frame.isBlock], trivial⟩
  constructor
  · intro t
    rw [mergeTarget_ok hMerge, reaches_concat, through_congr (alike_call own), through_nil, h.level]
    rfl
  · intro t
    rw [mergeTarget_ok hMerge, reaches_concat_body, through_congr (alike_call_body own), through_nil, h.level]
    exact or_congr_left (and_iff_left hFlows).symm

theorem targetGroup (h : Reached chain level body) (hMerge : mergeTarget level own path what = .ok target) :
    Reached (chain ++ [.targetGroup own]) target body := by
  constructor
  · intro t
    rw [mergeTarget_ok hMerge, reaches_concat, through_congr (alike_targetGroup own), through_nil, h.level]
    rfl
  · intro t
    rw [reaches_concat_body, through_congr (alike_targetGroup_body own), ← reaches_body, ← h.body]
    refine ⟨.inr, ?_⟩
    rintro (⟨-, -, hHanded⟩ | hBody)
    · exact hHanded.elim
    · exact hBody

theorem inBody (h : Reached chain level body) {kind : Body} (hKind : (Frame.body kind).isBlock = false) :
    Reached (chain ++ [.body kind]) body body := by
  constructor
  · intro t
    rw [reaches_concat, through_congr (alike_body hKind), ← reaches_body, ← h.body]
    simp [Frame.declares]
  · intro t
    rw [reaches_concat_body, through_congr (alike_body_body hKind), ← reaches_body, ← h.body]
    simp [Frame.declares]

theorem inBlock {kind : Body} (hKind : (Frame.body kind).isBlock = true) : Reached (chain ++ [.body kind]) none none := by
  have hStopped : ∀ frame inner more, ¬Flows frame (inner ++ .body kind :: more) := by
    intro frame inner more hFlows
    have hNot := hFlows.1 (.body kind) (by simp)
    rw [hKind] at hNot
    cases hNot
  constructor
  · intro t
    rw [reaches_concat]
    simp [Frame.declares, hStopped]
  · intro t
    rw [reaches_concat_body]
    simp [Frame.declares, hStopped]

end Reached

/-! ## One step -/

/-- The context is the one of the chain and of the group. -/
structure InContext (chain : List Frame) (tag : Option (String × Nat)) (ctx : Context R.Scope) : Prop where
  reached : Reached chain ctx.levelTarget ctx.bodyTarget
  name : ctx.groupCtx = tag.map Prod.fst
  id : ctx.groupId = tag.map Prod.snd

/-- No `group` may stand here: in a body, or in another `group`. -/
def Closed (tag : Option (String × Nat)) (ctx : Context R.Scope) : Prop := ctx.body.isSome ∨ tag.isSome

/-- The ids are those that the counter gave, one after the other. -/
def Taken (count : Nat) (ids : List Nat) (count' : Nat) : Prop :=
  ids = List.range' count ids.length ∧ count' = count + ids.length

theorem taken_nil (count : Nat) : Taken count [] count := ⟨rfl, rfl⟩

theorem Taken.append {count mid count' : Nat} {ids ids' : List Nat} (h : Taken count ids mid) (h' : Taken mid ids' count') :
    Taken count (ids ++ ids') count' := by
  obtain ⟨hIds, rfl⟩ := h
  obtain ⟨hIds', rfl⟩ := h'
  constructor
  · rw [List.length_append, ← List.range'_append_1, ← hIds, ← hIds']
  · rw [List.length_append, Nat.add_assoc]

/-- What expands a list stamps its steps by the chain they stand in. -/
def Stamps (R : Resolver M) (expand : Context R.Scope → List (Step M) → Run (List (Step M))) : Prop :=
  ∀ chain tag ctx steps count out count', InContext chain tag ctx → Returns (expand ctx steps) count out count' →
    ∃ ids, Stamped R ctx.scope chain tag steps out ids ∧ Taken count ids count' ∧ (Closed tag ctx → ids = [])

variable {expander : Context R.Scope → List (Step M) → Run (List (Step M))} {ctx : Context R.Scope} {st : Step M}
  {chain : List Frame} {tag : Option (String × Nat)} {front steps out : List (Step M)} {ids : List Nat} {count count' : Nat}

theorem InContext.forBody (h : InContext chain tag ctx) {kind : Body} (hKind : (Frame.body kind).isBlock = false) :
    InContext (chain ++ [.body kind]) none (ctx.forBody kind ctx.bodyTarget) :=
  ⟨h.reached.inBody hKind, rfl, rfl⟩

theorem InContext.forBlock (chain : List Frame) (ctx : Context R.Scope) {kind : Body}
    (hKind : (Frame.body kind).isBlock = true) : InContext (chain ++ [.body kind]) none (ctx.forBody kind none) :=
  ⟨Reached.inBlock hKind, rfl, rfl⟩

theorem closed_forBody (ctx : Context R.Scope) (kind : Body) (target : Option String) :
    Closed none (ctx.forBody kind target) := by
  refine .inl ?_
  rw [Context.forBody]
  split
  · rename_i hBlock
    simp only [Context.inBlock, Bool.or_eq_true, decide_eq_true_eq] at hBlock
    obtain hWeb | hApp := hBlock
    · rw [hWeb]
      rfl
    · rw [hApp]
      rfl
  · rfl

theorem Stamps.body (hExpand : Stamps R expander) {kind : Body} {target : Option String}
    (hCtx : InContext (chain ++ [.body kind]) none (ctx.forBody kind target))
    (h : Returns (expander (ctx.forBody kind target) steps) count out count') :
    Stamped R ctx.scope (chain ++ [.body kind]) none steps out [] ∧ count' = count := by
  obtain ⟨ids, hStamped, ⟨-, hCount⟩, hClosed⟩ := hExpand _ _ _ _ _ _ _ hCtx h
  obtain rfl := hClosed (closed_forBody ctx kind target)
  exact ⟨hStamped, hCount⟩

theorem stamp_stamped {stamped : Step M} (hReached : Reached chain ctx.levelTarget ctx.bodyTarget)
    (h : stamp st ctx.levelTarget ctx.path = .ok stamped) :
    (st.isSetPrimaryTarget = false →
        ∀ target, stamped.target = some target ↔ st.target = some target ∨ Reaches chain target) ∧
      (st.isSetPrimaryTarget = true → stamped.target = st.target) ∧
      stamped.reportGroup = st.reportGroup ∧ stamped.reportGroupId = st.reportGroupId := by
  rw [stamp] at h
  split at h
  · rename_i hPrimary
    cases h
    refine ⟨?_, fun _ => rfl, rfl, rfl⟩
    rw [hPrimary]
    rintro ⟨⟩
  · rename_i hPrimary
    cases hMerge : mergeTarget ctx.levelTarget st.target ctx.path (.step st.name) with
    | error refusal =>
      rw [hMerge] at h
      cases h
    | ok merged =>
      rw [hMerge] at h
      cases h
      refine ⟨?_, fun hYes => absurd hYes hPrimary, rfl, rfl⟩
      intro _ target
      rw [mergeTarget_ok hMerge, hReached.level]

theorem Reached.agrees {level body target : Option String} {path : List Link} {what : Link}
    (h : Reached chain level body) (hMerge : mergeTarget level st.target path what = .ok target) : Agrees chain st := by
  rintro own caller ⟨-, hOwn, hReaches, hNe⟩
  exact hNe (mergeTarget_agree hMerge hOwn ((h.level caller).mpr hReaches))

theorem keepStep_stamps (hExpand : Stamps R expander) (hCtx : InContext chain tag ctx)
    (h : Returns (keepStep R expander ctx st) count front count')
    (hForm : ∀ component with_ name inner, st.action ≠ .use component with_ ∧ st.action ≠ .group name inner ∧
      st.action ≠ .steps inner) :
    count' = count ∧ ∀ steps out ids, Stamped R ctx.scope chain tag steps out ids →
      Stamped R ctx.scope chain tag (st :: steps) (front ++ out) ids := by
  rw [keepStep] at h
  obtain ⟨stamped, mid, hSettled, hRun⟩ := returns_bind h
  obtain ⟨action, mid', hBodies, hLast⟩ := returns_bind hRun
  obtain ⟨hStamp, rfl⟩ := returns_settle hSettled
  obtain ⟨hAction, hKept⟩ := stamp_kept hStamp
  obtain ⟨hTarget, hUnstamped, hGroup, hGroupId⟩ := stamp_stamped hCtx.reached hStamp
  obtain ⟨kept, rfl, hKeptAction, hAs, rfl⟩ :
      ∃ kept, front = [kept] ∧ kept.action = action ∧ StampedAs chain tag st kept ∧ count' = mid' := by
    have hName := hCtx.name
    have hId := hCtx.id
    split at hLast
    · rename_i hNone
      obtain ⟨rfl, rfl⟩ := returns_pure hLast
      obtain rfl : tag = none := Option.map_eq_none_iff.mp (hName ▸ hNone)
      refine ⟨_, rfl, rfl, ⟨?_, hTarget, hUnstamped, (by rintro _ _ ⟨⟩), fun _ => ⟨hGroup, hGroupId⟩⟩, rfl⟩
      exact ⟨hKept.capture, hKept.extract, hKept.name, hKept.from_, hKept.target⟩
    · rename_i group hSome
      obtain ⟨rfl, rfl⟩ := returns_pure hLast
      rw [hSome] at hName
      refine ⟨_, rfl, rfl, ⟨?_, hTarget, hUnstamped, ?_, ?_⟩, rfl⟩
      · exact ⟨hKept.capture, hKept.extract, hKept.name, hKept.from_, hKept.target⟩
      · rintro name id rfl
        exact ⟨hName, hId⟩
      · rintro rfl
        cases hName
  rw [hAction] at hBodies
  cases hCase : st.action with
  | leaf field model =>
    rw [hCase] at hBodies
    obtain ⟨rfl, rfl⟩ := returns_pure hBodies
    exact ⟨rfl, fun _ _ _ hRest => .leaf hCase hKeptAction hAs hRest⟩
  | use component with_ => exact absurd hCase (hForm component with_ "" []).1
  | group name inner => exact absurd hCase (hForm "" [] name inner).2.1
  | steps inner => exact absurd hCase (hForm "" [] "" inner).2.2
  | if_ condition then_ else_ =>
    rw [hCase] at hBodies
    obtain ⟨then', mid'', hThen, hAfter⟩ := returns_bind hBodies
    obtain ⟨hThen', rfl⟩ := hExpand.body (hCtx.forBody rfl) hThen
    cases else_ with
    | none =>
      obtain ⟨rfl, rfl⟩ := returns_pure hAfter
      exact ⟨rfl, fun _ _ _ hRest => .ifThen hCase hThen' hKeptAction hAs hRest⟩
    | some else_ =>
      obtain ⟨else', mid''', hElse, hDone⟩ := returns_bind hAfter
      obtain ⟨hElse', rfl⟩ := hExpand.body (hCtx.forBody rfl) hElse
      obtain ⟨rfl, rfl⟩ := returns_pure hDone
      exact ⟨rfl, fun _ _ _ hRest => .ifElse hCase hThen' hElse' hKeptAction hAs hRest⟩
  | forEach sel as_ body =>
    rw [hCase] at hBodies
    obtain ⟨body', mid'', hBody, hAfter⟩ := returns_bind hBodies
    obtain ⟨hBody', rfl⟩ := hExpand.body (hCtx.forBody rfl) hBody
    obtain ⟨rfl, rfl⟩ := returns_pure hAfter
    exact ⟨rfl, fun _ _ _ hRest => .forEach hCase hBody' hKeptAction hAs hRest⟩
  | web within body =>
    rw [hCase] at hBodies
    obtain ⟨body', mid'', hBody, hAfter⟩ := returns_bind hBodies
    obtain ⟨hBody', rfl⟩ := hExpand.body (InContext.forBlock chain ctx rfl) hBody
    obtain ⟨rfl, rfl⟩ := returns_pure hAfter
    exact ⟨rfl, fun _ _ _ hRest => .web hCase hBody' hKeptAction hAs hRest⟩
  | app bundleId body =>
    rw [hCase] at hBodies
    obtain ⟨body', mid'', hBody, hAfter⟩ := returns_bind hBodies
    obtain ⟨hBody', rfl⟩ := hExpand.body (InContext.forBlock chain ctx rfl) hBody
    obtain ⟨rfl, rfl⟩ := returns_pure hAfter
    exact ⟨rfl, fun _ _ _ hRest => .app hCase hBody' hKeptAction hAs hRest⟩

theorem returns_nextGroupId {id : Nat} (h : Returns nextGroupId count id count') : id = count ∧ count' = count + 1 := by
  cases h
  exact ⟨rfl, rfl⟩

theorem checkGroupPosition_ok {name : String} {body : Option Body} {groupCtx : Option String}
    (h : checkGroupPosition name body groupCtx = .ok ()) : body = none ∧ groupCtx = none := by
  cases body <;> cases groupCtx <;> cases h
  exact ⟨rfl, rfl⟩

theorem expandStep_stamps (hExpand : Stamps R expander) (hCtx : InContext chain tag ctx)
    (h : Returns (expandStep R expander ctx st) count front count') :
    ∃ ids, Taken count ids count' ∧ (Closed tag ctx → ids = []) ∧
      ∀ steps out ids', Stamped R ctx.scope chain tag steps out ids' →
        Stamped R ctx.scope chain tag (st :: steps) (front ++ out) (ids ++ ids') := by
  cases hCase : st.action with
  | group name inner =>
    simp only [expandStep, hCase] at h
    obtain ⟨⟨⟩, _, hPosition, hMerging⟩ := returns_bind h
    obtain ⟨target, _, hMerge, hNumbering⟩ := returns_bind hMerging
    obtain ⟨id, _, hNext, hInner⟩ := returns_bind hNumbering
    obtain ⟨hOk, rfl⟩ := returns_settle hPosition
    obtain ⟨hTarget, rfl⟩ := returns_settle hMerge
    obtain ⟨rfl, rfl⟩ := returns_nextGroupId hNext
    obtain ⟨hBody, hGroup⟩ := checkGroupPosition_ok hOk
    obtain rfl : tag = none := Option.map_eq_none_iff.mp (hCtx.name ▸ hGroup)
    have hContext : InContext (chain ++ [.call st.target]) (some (name, id))
        (⟨ctx.stack, ctx.scope, some name, some id, target, target,
          if target.isSome then ctx.path ++ [.group name] else ctx.path, none⟩ : Context R.Scope) :=
      ⟨hCtx.reached.call hTarget, rfl, rfl⟩
    obtain ⟨ids, hStamped, ⟨-, hCount⟩, hClosed⟩ := hExpand _ _ _ _ _ _ _ hContext hInner
    obtain rfl := hClosed (.inr rfl)
    refine ⟨[id], ⟨rfl, hCount⟩, ?_, ?_⟩
    · rintro (hOpen | hOpen)
      · rw [hBody] at hOpen
        cases hOpen
      · cases hOpen
    · intro steps out ids' hRest
      exact .group hCase (hCtx.reached.agrees hTarget) hStamped hRest
  | steps inner =>
    simp only [expandStep, hCase] at h
    split at h
    · cases (returns_settle h).1
    · obtain ⟨⟨⟩, _, hRefuse, hMerging⟩ := returns_bind h
      obtain ⟨target, _, hMerge, hInner⟩ := returns_bind hMerging
      obtain ⟨-, rfl⟩ := returns_settle hRefuse
      obtain ⟨hTarget, rfl⟩ := returns_settle hMerge
      have hContext : InContext (chain ++ [.targetGroup st.target]) tag
          { ctx with levelTarget := target, path := ctx.path ++ [.targetGroup st.target] } :=
        ⟨hCtx.reached.targetGroup hTarget, hCtx.name, hCtx.id⟩
      obtain ⟨ids, hStamped, hTaken, hClosed⟩ := hExpand _ _ _ _ _ _ _ hContext hInner
      refine ⟨ids, hTaken, hClosed, ?_⟩
      intro steps out ids' hRest
      exact .steps hCase (hCtx.reached.agrees hTarget) hStamped hRest
  | use component with_ =>
    simp only [expandStep, hCase] at h
    split at h
    · cases (returns_settle h).1
    · obtain ⟨substituted, _, hInstantiate, hMerging⟩ := returns_bind h
      obtain ⟨target, _, hMerge, hInner⟩ := returns_bind hMerging
      obtain ⟨hInstance, rfl⟩ := returns_settle hInstantiate
      obtain ⟨hTarget, rfl⟩ := returns_settle hMerge
      have hContext : InContext (chain ++ [.call st.target]) tag
          { ctx with
            stack := ctx.stack ++ [component]
            scope := R.scopeFor ctx.scope component
            levelTarget := target
            bodyTarget := target
            path := ctx.path ++ [.use component] } :=
        ⟨hCtx.reached.call hTarget, hCtx.name, hCtx.id⟩
      obtain ⟨ids, hStamped, hTaken, hClosed⟩ := hExpand _ _ _ _ _ _ _ hContext hInner
      refine ⟨ids, hTaken, hClosed, ?_⟩
      intro steps out ids' hRest
      exact .use hCase hInstance (hCtx.reached.agrees hTarget) hStamped hRest
  | _ =>
    simp only [expandStep, hCase] at h
    obtain ⟨rfl, hStamped⟩ := keepStep_stamps hExpand hCtx h fun _ _ _ _ => by simp [hCase]
    exact ⟨[], taken_nil _, fun _ => rfl, hStamped⟩

theorem each_stamps (hExpand : Stamps R expander) (hCtx : InContext chain tag ctx) {fronts : List (List (Step M))}
    (h : Each (expandStep R expander ctx) count steps fronts count') :
    ∃ ids, Stamped R ctx.scope chain tag steps fronts.flatten ids ∧ Taken count ids count' ∧ (Closed tag ctx → ids = []) := by
  induction h with
  | nil => exact ⟨[], .nil _ _ _, taken_nil _, fun _ => rfl⟩
  | cons hFirst _ ih =>
    obtain ⟨ids', hRest, hTaken', hClosed'⟩ := ih
    obtain ⟨ids, hTaken, hClosed, hStep⟩ := expandStep_stamps hExpand hCtx hFirst
    refine ⟨ids ++ ids', hStep _ _ _ hRest, hTaken.append hTaken', ?_⟩
    intro hIn
    rw [hClosed hIn, hClosed' hIn]
    rfl

theorem expand_stamps (fuel : Nat) : Stamps R (expand R maxDepth fuel) := by
  induction fuel with
  | zero =>
    intro chain tag ctx steps count out count' _ h
    exact absurd h not_returns_outOfFuel
  | succ fuel ih =>
    intro chain tag ctx steps count out count' hCtx h
    rw [expand] at h
    split at h
    · cases (returns_settle h).1
    · obtain ⟨fronts, mid, hFronts, hLast⟩ := returns_bind h
      obtain ⟨rfl, rfl⟩ := returns_pure hLast
      exact each_stamps ih hCtx (each_of_mapM hFronts)

/-! ## What a refusal of a target is about -/

/-- Two targets meet at a step that expansion comes to, or what resolves components says so. -/
def Blamed (R : Resolver M) (scope : R.Scope) (chain : List Frame) (steps : List (Step M)) (own caller : String) : Prop :=
  (∃ scope' chain' st, Occurs R scope chain steps scope' chain' st ∧ Conflict chain' st own caller) ∨
    ∃ scope' component path, R.resolve scope' component = .error (.targetConflict path own caller)

/-- What expands a list refuses a target for another one only where the two meet. -/
def Blames (R : Resolver M) (expand : Context R.Scope → List (Step M) → Run (List (Step M))) : Prop :=
  ∀ chain ctx steps count path own caller, Reached chain ctx.levelTarget ctx.bodyTarget →
    Raises (expand ctx steps) count (.targetConflict path own caller) → Blamed R ctx.scope chain steps own caller

section Blame

variable {own caller : String} {path : List Link} {scope : R.Scope}

theorem Blamed.conflict (hMem : st ∈ steps) (h : Conflict chain st own caller) : Blamed R scope chain steps own caller :=
  .inl ⟨scope, chain, st, .here hMem, h⟩

theorem Blamed.opened {scope' : R.Scope} {frame : Frame} {inner : List (Step M)} (hMem : st ∈ steps)
    (hOpens : Opens R scope st scope' frame inner) (h : Blamed R scope' (chain ++ [frame]) inner own caller) :
    Blamed R scope chain steps own caller := by
  obtain ⟨scope'', chain'', child, hOccurs, hConflict⟩ | hForeign := h
  · exact .inl ⟨scope'', chain'', child, .inside hMem hOpens hOccurs, hConflict⟩
  · exact .inr hForeign

theorem Blames.opened (hExpand : Blames R expander) {ctx' : Context R.Scope} {frame : Frame} {inner : List (Step M)}
    (h : Raises (expander ctx' inner) count (.targetConflict path own caller)) (hMem : st ∈ steps)
    (hOpens : Opens R scope st ctx'.scope frame inner)
    (hReached : Reached (chain ++ [frame]) ctx'.levelTarget ctx'.bodyTarget) : Blamed R scope chain steps own caller :=
  .opened hMem hOpens (hExpand _ _ _ _ _ _ _ hReached h)

theorem Reached.conflict {level body : Option String} {path' : List Link} {what : Link} (h : Reached chain level body)
    (hPrimary : st.isSetPrimaryTarget = false)
    (hMerge : mergeTarget level st.target path' what = .error (.targetConflict path own caller)) :
    Conflict chain st own caller := by
  obtain ⟨t, t', hRefusal, hOwn, hCaller, hNe⟩ := mergeTarget_error hMerge
  cases hRefusal
  exact ⟨hPrimary, hOwn, (h.level caller).mp hCaller, hNe⟩

theorem stamp_conflict {path' : List Link} (hReached : Reached chain ctx.levelTarget ctx.bodyTarget)
    (h : stamp st ctx.levelTarget path' = .error (.targetConflict path own caller)) : Conflict chain st own caller := by
  rw [stamp] at h
  split at h
  · cases h
  · rename_i hPrimary
    cases hMerge : mergeTarget ctx.levelTarget st.target path' (.step st.name) with
    | ok merged =>
      rw [hMerge] at h
      cases h
    | error refusal =>
      rw [hMerge] at h
      cases h
      exact hReached.conflict (Bool.eq_false_iff.mpr hPrimary) hMerge

theorem instantiate_conflict {component : String} {with_ : List (String × String)}
    (h : instantiate R scope component with_ = .error (.targetConflict path own caller)) :
    R.resolve scope component = .error (.targetConflict path own caller) := by
  rw [instantiate] at h
  cases hResolve : R.resolve scope component with
  | error refusal =>
    rw [hResolve] at h
    cases h
    rfl
  | ok comp =>
    rw [hResolve] at h
    simp only [bind, Except.bind] at h
    split at h
    · cases h
    · split at h
      · cases h
      · split at h
        · cases h
        · split at h <;> cases h

theorem expandBodies_blames (hExpand : Blames R expander) (hReached : Reached chain ctx.levelTarget ctx.bodyTarget)
    (hMem : st ∈ steps)
    (h : Raises (expandBodies (fun inner kind target => expander (ctx.forBody kind target) inner) ctx.bodyTarget st.action)
      count (.targetConflict path own caller)) : Blamed R ctx.scope chain steps own caller := by
  cases hCase : st.action with
  | if_ condition then_ else_ =>
    rw [hCase] at h
    obtain hThen | ⟨then', mid, -, hAfter⟩ := raises_bind h
    · exact hExpand.opened hThen hMem (.then_ hCase) (hReached.inBody rfl)
    · cases else_ with
      | none => exact absurd hAfter not_raises_pure
      | some else_ =>
        obtain hElse | ⟨else', last, -, hDone⟩ := raises_bind hAfter
        · exact hExpand.opened hElse hMem (.else_ hCase) (hReached.inBody rfl)
        · exact absurd hDone not_raises_pure
  | forEach sel as_ body =>
    rw [hCase] at h
    obtain hBody | ⟨body', mid, -, hDone⟩ := raises_bind h
    · exact hExpand.opened hBody hMem (.forEach hCase) (hReached.inBody rfl)
    · exact absurd hDone not_raises_pure
  | web within body =>
    rw [hCase] at h
    obtain hBody | ⟨body', mid, -, hDone⟩ := raises_bind h
    · exact hExpand.opened hBody hMem (.web hCase) (Reached.inBlock rfl)
    · exact absurd hDone not_raises_pure
  | app bundleId body =>
    rw [hCase] at h
    obtain hBody | ⟨body', mid, -, hDone⟩ := raises_bind h
    · exact hExpand.opened hBody hMem (.app hCase) (Reached.inBlock rfl)
    · exact absurd hDone not_raises_pure
  | _ =>
    rw [hCase] at h
    exact absurd h not_raises_pure

theorem expandStep_blames (hExpand : Blames R expander) (hReached : Reached chain ctx.levelTarget ctx.bodyTarget)
    (hMem : st ∈ steps) (h : Raises (expandStep R expander ctx st) count (.targetConflict path own caller)) :
    Blamed R ctx.scope chain steps own caller := by
  cases hCase : st.action with
  | group name inner =>
    simp only [expandStep, hCase] at h
    obtain hPosition | ⟨⟨⟩, _, -, hMerging⟩ := raises_bind h
    · have hRefused := raises_settle hPosition
      unfold checkGroupPosition at hRefused
      split at hRefused <;> cases hRefused
    · obtain hMerge | ⟨target, _, hMerge, hNumbering⟩ := raises_bind hMerging
      · exact .conflict hMem (hReached.conflict (by simp [Step.isSetPrimaryTarget, hCase]) (raises_settle hMerge))
      · obtain hNext | ⟨id, _, -, hInner⟩ := raises_bind hNumbering
        · cases hNext
        · exact hExpand.opened hInner hMem (.group hCase) (hReached.call (returns_settle hMerge).1)
  | steps inner =>
    simp only [expandStep, hCase] at h
    split at h
    · cases raises_settle h
    · obtain hRefuse | ⟨⟨⟩, _, -, hMerging⟩ := raises_bind h
      · have hRefused := raises_settle hRefuse
        unfold refuseSetPrimaryTarget at hRefused
        split at hRefused <;> cases hRefused
      · obtain hMerge | ⟨target, _, hMerge, hInner⟩ := raises_bind hMerging
        · exact .conflict hMem (hReached.conflict (by simp [Step.isSetPrimaryTarget, hCase]) (raises_settle hMerge))
        · exact hExpand.opened hInner hMem (.steps hCase) (hReached.targetGroup (returns_settle hMerge).1)
  | use component with_ =>
    simp only [expandStep, hCase] at h
    split at h
    · cases raises_settle h
    · obtain hInstance | ⟨substituted, _, hInstance, hMerging⟩ := raises_bind h
      · exact .inr ⟨_, _, _, instantiate_conflict (raises_settle hInstance)⟩
      · obtain hMerge | ⟨target, _, hMerge, hInner⟩ := raises_bind hMerging
        · exact .conflict hMem (hReached.conflict (by simp [Step.isSetPrimaryTarget, hCase]) (raises_settle hMerge))
        · exact hExpand.opened hInner hMem (.use hCase (returns_settle hInstance).1)
            (hReached.call (returns_settle hMerge).1)
  | _ =>
    simp only [expandStep, hCase, keepStep] at h
    obtain hStamp | ⟨stamped, _, hStamp, hKeeping⟩ := raises_bind h
    · exact .conflict hMem (stamp_conflict hReached (raises_settle hStamp))
    · obtain hBodies | ⟨action, _, -, hDone⟩ := raises_bind hKeeping
      · rw [(stamp_kept (returns_settle hStamp).1).1] at hBodies
        exact expandBodies_blames hExpand hReached hMem hBodies
      · split at hDone <;> exact absurd hDone not_raises_pure

theorem expand_blames (fuel : Nat) : Blames R (expand R maxDepth fuel) := by
  induction fuel with
  | zero =>
    intro chain ctx steps count path own caller _ h
    cases h
  | succ fuel ih =>
    intro chain ctx steps count path own caller hReached h
    rw [expand] at h
    split at h
    · cases raises_settle h
    · obtain hSteps | ⟨fronts, mid, -, hDone⟩ := raises_bind h
      · obtain ⟨st, hMem, _, hStep⟩ := raises_mapM hSteps
        exact expandStep_blames ih hReached hMem hStep
      · exact absurd hDone not_raises_pure

end Blame

end Bajutsu.Scenarios
