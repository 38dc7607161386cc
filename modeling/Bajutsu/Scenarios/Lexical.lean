import Bajutsu.Scenarios.ExpandHalts

/-!
# Which targets reach a step

A step stands in a chain of frames: the `group` and `use` calls, the target groups and the bodies around it, outermost
first. A target reaches inward by where it is declared. The target of a call goes into everything but a `web` or `app`
body; that of a target group goes to its own steps, and into a body only through a call among them.
-/

namespace Bajutsu.Scenarios

open PyValue Fuelled

variable {M : Models}

inductive Frame where
  | call (target : Option String)
  | targetGroup (target : Option String)
  | body (kind : Body)

namespace Frame

def declares : Frame → Option String
  | call target | targetGroup target => target
  | body _ => none

/-- A `web` or `app` body, where every step runs against the block's own device. -/
def isBlock : Frame → Bool
  | body .web | body .app => true
  | _ => false

end Frame

/-- A call comes before the first body, if there is a body at all. -/
def HandedOn : List Frame → Prop
  | [] => True
  | .call _ :: _ => True
  | .targetGroup _ :: inner => HandedOn inner
  | .body _ :: _ => False

/-- What a frame declares goes through the frames inside it. -/
def Flows (frame : Frame) (inner : List Frame) : Prop :=
  (∀ other ∈ inner, other.isBlock = false) ∧
    match frame with
    | .call _ => True
    | .targetGroup _ => HandedOn inner
    | .body _ => False

def Reaches (chain : List Frame) (target : String) : Prop :=
  ∃ outer frame inner, chain = outer ++ frame :: inner ∧ frame.declares = some target ∧ Flows frame inner

/-! ## One more frame -/

theorem not_reaches_nil (target : String) : ¬Reaches [] target := by
  rintro ⟨outer, frame, inner, hChain, -⟩
  simp at hChain

/-- What reaches the inside of the last frame is declared by it, or goes through it. -/
theorem reaches_concat {chain : List Frame} {last : Frame} {target : String} :
    Reaches (chain ++ [last]) target ↔ last.declares = some target ∨
      ∃ outer frame inner, chain = outer ++ frame :: inner ∧ frame.declares = some target ∧ Flows frame (inner ++ [last]) := by
  constructor
  · rintro ⟨outer, frame, inner, hChain, hDeclares, hFlows⟩
    obtain rfl | ⟨front, last', rfl⟩ := List.eq_nil_or_concat inner
    · obtain ⟨-, hLast⟩ := List.append_inj' hChain rfl
      obtain ⟨rfl, -⟩ := List.cons.inj hLast
      exact .inl hDeclares
    · rw [List.concat_eq_append, ← List.cons_append, ← List.append_assoc] at hChain
      obtain ⟨rfl, hLast⟩ := List.append_inj' hChain rfl
      obtain ⟨rfl, -⟩ := List.cons.inj hLast
      rw [List.concat_eq_append] at hFlows
      exact .inr ⟨outer, frame, front, rfl, hDeclares, hFlows⟩
  · rintro (hDeclares | ⟨outer, frame, inner, rfl, hDeclares, hFlows⟩)
    · refine ⟨chain, last, [], rfl, hDeclares, ?_⟩
      cases last with
      | call => exact ⟨nofun, trivial⟩
      | targetGroup => exact ⟨nofun, trivial⟩
      | body kind => cases hDeclares
    · exact ⟨outer, frame, inner ++ [last], by simp, hDeclares, hFlows⟩

/-- Frames that let through the same, after any others. -/
structure Alike (ends ends' : List Frame) : Prop where
  blocks : (∀ frame ∈ ends, frame.isBlock = false) ↔ ∀ frame ∈ ends', frame.isBlock = false
  handed : ∀ inner, HandedOn (inner ++ ends) ↔ HandedOn (inner ++ ends')

theorem Alike.flows {ends ends' : List Frame} (h : Alike ends ends') (frame : Frame) (inner : List Frame) :
    Flows frame (inner ++ ends) ↔ Flows frame (inner ++ ends') := by
  have hBlocks : (∀ other ∈ inner ++ ends, other.isBlock = false) ↔ ∀ other ∈ inner ++ ends', other.isBlock = false := by
    simp only [List.forall_mem_append, h.blocks]
  cases frame with
  | call => simp only [Flows, hBlocks]
  | targetGroup => simp only [Flows, hBlocks, h.handed]
  | body => simp only [Flows, and_false]

theorem alike_of_handed {ends ends' : List Frame}
    (hBlocks : (∀ frame ∈ ends, frame.isBlock = false) ↔ ∀ frame ∈ ends', frame.isBlock = false)
    (hHanded : HandedOn ends ↔ HandedOn ends') : Alike ends ends' := by
  refine ⟨hBlocks, ?_⟩
  intro inner
  induction inner with
  | nil => exact hHanded
  | cons frame inner ih =>
    cases frame with
    | call => exact Iff.rfl
    | targetGroup => exact ih
    | body => exact Iff.rfl

theorem alike_call (target : Option String) : Alike [.call target] [] :=
  alike_of_handed (by simp [Frame.isBlock]) Iff.rfl

theorem alike_targetGroup (target : Option String) : Alike [.targetGroup target] [] :=
  alike_of_handed (by simp [Frame.isBlock]) Iff.rfl

theorem alike_call_body (target : Option String) : Alike [.call target, .body .if_] [] :=
  alike_of_handed (by simp [Frame.isBlock]) Iff.rfl

theorem alike_targetGroup_body (target : Option String) : Alike [.targetGroup target, .body .if_] [.body .if_] :=
  alike_of_handed (by simp [Frame.isBlock]) Iff.rfl

theorem alike_body {kind : Body} (hKind : (Frame.body kind).isBlock = false) : Alike [.body kind] [.body .if_] := by
  refine alike_of_handed ?_ Iff.rfl
  simp only [List.forall_mem_singleton]
  exact iff_of_true hKind rfl

theorem alike_body_body {kind : Body} (hKind : (Frame.body kind).isBlock = false) :
    Alike [.body kind, .body .if_] [.body .if_] :=
  alike_of_handed (by simpa using fun _ => hKind) Iff.rfl

theorem through_congr {ends ends' : List Frame} (h : Alike ends ends') {chain : List Frame} {target : String} :
    (∃ outer frame inner, chain = outer ++ frame :: inner ∧ frame.declares = some target ∧ Flows frame (inner ++ ends)) ↔
      ∃ outer frame inner, chain = outer ++ frame :: inner ∧ frame.declares = some target ∧ Flows frame (inner ++ ends') := by
  simp only [h.flows]

/-! ## Where a step occurs -/

/-- The steps inside a step, and the frame that they are inside of. -/
inductive Opens (R : Resolver M) (scope : R.Scope) (st : Step M) : R.Scope → Frame → List (Step M) → Prop
  | group {name inner} (hAction : st.action = .group name inner) : Opens R scope st scope (.call st.target) inner
  | steps {inner} (hAction : st.action = .steps inner) : Opens R scope st scope (.targetGroup st.target) inner
  | use {component with_ substituted} (hAction : st.action = .use component with_)
      (hInstance : instantiate R scope component with_ = .ok substituted) :
      Opens R scope st (R.scopeFor scope component) (.call st.target) substituted
  | then_ {condition then_ else_} (hAction : st.action = .if_ condition then_ else_) :
      Opens R scope st scope (.body .if_) then_
  | else_ {condition then_ else_} (hAction : st.action = .if_ condition then_ (some else_)) :
      Opens R scope st scope (.body .if_) else_
  | forEach {sel as_ inner} (hAction : st.action = .forEach sel as_ inner) : Opens R scope st scope (.body .forEach) inner
  | web {within inner} (hAction : st.action = .web within inner) : Opens R scope st scope (.body .web) inner
  | app {bundleId inner} (hAction : st.action = .app bundleId inner) : Opens R scope st scope (.body .app) inner

/-- A step that expansion comes to in a list of steps, at any depth, with the scope and the chain it stands in. -/
inductive Occurs (R : Resolver M) : R.Scope → List Frame → List (Step M) → R.Scope → List Frame → Step M → Prop
  | here {scope chain steps st} (hMem : st ∈ steps) : Occurs R scope chain steps scope chain st
  | inside {scope chain steps st scope' frame inner scope'' chain'' child} (hMem : st ∈ steps)
      (hOpens : Opens R scope st scope' frame inner)
      (hInner : Occurs R scope' (chain ++ [frame]) inner scope'' chain'' child) :
      Occurs R scope chain steps scope'' chain'' child

/-- A step's own target is another than one that reaches it. -/
def Conflict (chain : List Frame) (st : Step M) (own caller : String) : Prop :=
  st.isSetPrimaryTarget = false ∧ st.target = some own ∧ Reaches chain caller ∧ own ≠ caller

def Agrees (chain : List Frame) (st : Step M) : Prop := ∀ own caller, ¬Conflict chain st own caller

/-! ## Stamped steps -/

variable {R : Resolver M}

/-- What a kept step is stamped with: its own target or the one that reaches it, and its group. -/
structure StampedAs (chain : List Frame) (tag : Option (String × Nat)) (st kept : Step M) : Prop where
  same : Kept st kept
  target : st.isSetPrimaryTarget = false → ∀ target, kept.target = some target ↔ st.target = some target ∨ Reaches chain target
  unstamped : st.isSetPrimaryTarget = true → kept.target = st.target
  grouped : ∀ name id, tag = some (name, id) → kept.reportGroup = some name ∧ kept.reportGroupId = some id
  ungrouped : tag = none → kept.reportGroup = st.reportGroup ∧ kept.reportGroupId = st.reportGroupId

/-- A list of steps, in its chain and its group, becomes another; the numbers are the ids that its `group` calls have
taken, in order. -/
inductive Stamped (R : Resolver M) :
    R.Scope → List Frame → Option (String × Nat) → List (Step M) → List (Step M) → List Nat → Prop where
  | nil (scope chain tag) : Stamped R scope chain tag [] [] []
  | leaf {scope chain tag st kept steps out ids action model} (hAction : st.action = .leaf action model)
      (hKept : kept.action = .leaf action model) (hAs : StampedAs chain tag st kept)
      (hRest : Stamped R scope chain tag steps out ids) : Stamped R scope chain tag (st :: steps) (kept :: out) ids
  | ifThen {scope chain tag st kept steps out ids condition then_ then'} (hAction : st.action = .if_ condition then_ none)
      (hThen : Stamped R scope (chain ++ [.body .if_]) none then_ then' []) (hKept : kept.action = .if_ condition then' none)
      (hAs : StampedAs chain tag st kept) (hRest : Stamped R scope chain tag steps out ids) :
      Stamped R scope chain tag (st :: steps) (kept :: out) ids
  | ifElse {scope chain tag st kept steps out ids condition then_ else_ then' else'}
      (hAction : st.action = .if_ condition then_ (some else_))
      (hThen : Stamped R scope (chain ++ [.body .if_]) none then_ then' [])
      (hElse : Stamped R scope (chain ++ [.body .if_]) none else_ else' [])
      (hKept : kept.action = .if_ condition then' (some else')) (hAs : StampedAs chain tag st kept)
      (hRest : Stamped R scope chain tag steps out ids) : Stamped R scope chain tag (st :: steps) (kept :: out) ids
  | forEach {scope chain tag st kept steps out ids sel as_ body body'} (hAction : st.action = .forEach sel as_ body)
      (hBody : Stamped R scope (chain ++ [.body .forEach]) none body body' [])
      (hKept : kept.action = .forEach sel as_ body') (hAs : StampedAs chain tag st kept)
      (hRest : Stamped R scope chain tag steps out ids) : Stamped R scope chain tag (st :: steps) (kept :: out) ids
  | web {scope chain tag st kept steps out ids within body body'} (hAction : st.action = .web within body)
      (hBody : Stamped R scope (chain ++ [.body .web]) none body body' []) (hKept : kept.action = .web within body')
      (hAs : StampedAs chain tag st kept) (hRest : Stamped R scope chain tag steps out ids) :
      Stamped R scope chain tag (st :: steps) (kept :: out) ids
  | app {scope chain tag st kept steps out ids bundleId body body'} (hAction : st.action = .app bundleId body)
      (hBody : Stamped R scope (chain ++ [.body .app]) none body body' []) (hKept : kept.action = .app bundleId body')
      (hAs : StampedAs chain tag st kept) (hRest : Stamped R scope chain tag steps out ids) :
      Stamped R scope chain tag (st :: steps) (kept :: out) ids
  | group {scope chain st steps front out ids name inner id} (hAction : st.action = .group name inner)
      (hAgrees : Agrees chain st) (hInner : Stamped R scope (chain ++ [.call st.target]) (some (name, id)) inner front [])
      (hRest : Stamped R scope chain none steps out ids) :
      Stamped R scope chain none (st :: steps) (front ++ out) (id :: ids)
  | steps {scope chain tag st steps front out ids ids' inner} (hAction : st.action = .steps inner)
      (hAgrees : Agrees chain st) (hInner : Stamped R scope (chain ++ [.targetGroup st.target]) tag inner front ids)
      (hRest : Stamped R scope chain tag steps out ids') :
      Stamped R scope chain tag (st :: steps) (front ++ out) (ids ++ ids')
  | use {scope chain tag st steps front out ids ids' component with_ substituted} (hAction : st.action = .use component with_)
      (hInstance : instantiate R scope component with_ = .ok substituted) (hAgrees : Agrees chain st)
      (hInner : Stamped R (R.scopeFor scope component) (chain ++ [.call st.target]) tag substituted front ids)
      (hRest : Stamped R scope chain tag steps out ids') :
      Stamped R scope chain tag (st :: steps) (front ++ out) (ids ++ ids')

theorem StampedAs.agrees {chain : List Frame} {tag : Option (String × Nat)} {st kept : Step M}
    (h : StampedAs chain tag st kept) : Agrees chain st := by
  rintro own caller ⟨hPrimary, hOwn, hReaches, hNe⟩
  have hTarget := (h.target hPrimary own).mpr (.inl hOwn)
  rw [(h.target hPrimary caller).mpr (.inr hReaches)] at hTarget
  exact hNe (Option.some.inj hTarget).symm

/-- The steps that a `group` becomes are one block, all of them with its name and its id. -/
theorem Stamped.block {scope : R.Scope} {chain : List Frame} {tag : Option (String × Nat)} {steps out : List (Step M)}
    {ids : List Nat} (h : Stamped R scope chain tag steps out ids) {name : String} {id : Nat} (hTag : tag = some (name, id)) :
    ∀ kept ∈ out, kept.reportGroup = some name ∧ kept.reportGroupId = some id := by
  induction h with
  | nil => exact fun _ hMem => nomatch hMem
  | leaf _ _ hAs _ ih | ifThen _ _ _ hAs _ _ ih | ifElse _ _ _ _ hAs _ _ _ ih | forEach _ _ _ hAs _ _ ih
  | web _ _ _ hAs _ _ ih | app _ _ _ hAs _ _ ih =>
    intro kept hMem
    obtain rfl | hMem := List.mem_cons.mp hMem
    · exact hAs.grouped name id hTag
    · exact ih hTag kept hMem
  | group => cases hTag
  | steps _ _ _ _ ihInner ih | use _ _ _ _ _ ihInner ih =>
    intro kept hMem
    obtain hMem | hMem := List.mem_append.mp hMem
    · exact ihInner hTag kept hMem
    · exact ih hTag kept hMem

theorem occurs_cons {scope scope' : R.Scope} {chain chain' : List Frame} {st child : Step M} {steps : List (Step M)}
    (h : Occurs R scope chain (st :: steps) scope' chain' child) :
    (child = st ∧ chain' = chain) ∨
      (∃ scope'' frame inner, Opens R scope st scope'' frame inner ∧
        Occurs R scope'' (chain ++ [frame]) inner scope' chain' child) ∨
      Occurs R scope chain steps scope' chain' child := by
  cases h with
  | here hMem =>
    obtain rfl | hMem := List.mem_cons.mp hMem
    · exact .inl ⟨rfl, rfl⟩
    · exact .inr (.inr (.here hMem))
  | inside hMem hOpens hInner =>
    obtain rfl | hMem := List.mem_cons.mp hMem
    · exact .inr (.inl ⟨_, _, _, hOpens, hInner⟩)
    · exact .inr (.inr (.inside hMem hOpens hInner))

theorem Stamped.agrees {scope scope' : R.Scope} {chain chain' : List Frame} {tag : Option (String × Nat)}
    {steps out : List (Step M)} {ids : List Nat} {child : Step M} (h : Stamped R scope chain tag steps out ids)
    (hOccurs : Occurs R scope chain steps scope' chain' child) : Agrees chain' child := by
  induction h with
  | nil =>
    cases hOccurs with
    | here hMem => cases hMem
    | inside hMem => cases hMem
  | leaf hAction hKept hAs _ ih =>
    obtain ⟨rfl, rfl⟩ | ⟨_, _, _, hOpens, -⟩ | hRest := occurs_cons hOccurs
    · exact hAs.agrees
    · cases hOpens <;> simp_all
    · exact ih hRest
  | ifThen hAction _ hKept hAs _ ihThen ih =>
    obtain ⟨rfl, rfl⟩ | ⟨_, _, _, hOpens, hInner⟩ | hRest := occurs_cons hOccurs
    · exact hAs.agrees
    · cases hOpens <;> simp_all
    · exact ih hRest
  | ifElse hAction _ _ hKept hAs _ ihThen ihElse ih =>
    obtain ⟨rfl, rfl⟩ | ⟨_, _, _, hOpens, hInner⟩ | hRest := occurs_cons hOccurs
    · exact hAs.agrees
    · cases hOpens <;> simp_all
    · exact ih hRest
  | forEach hAction _ hKept hAs _ ihBody ih | web hAction _ hKept hAs _ ihBody ih | app hAction _ hKept hAs _ ihBody ih =>
    obtain ⟨rfl, rfl⟩ | ⟨_, _, _, hOpens, hInner⟩ | hRest := occurs_cons hOccurs
    · exact hAs.agrees
    · cases hOpens <;> simp_all
    · exact ih hRest
  | group hAction hAgrees _ _ ihInner ih | steps hAction hAgrees _ _ ihInner ih
  | use hAction hInstance hAgrees _ _ ihInner ih =>
    obtain ⟨rfl, rfl⟩ | ⟨_, _, _, hOpens, hInner⟩ | hRest := occurs_cons hOccurs
    · exact hAgrees
    · cases hOpens <;> simp_all
    · exact ih hRest

end Bajutsu.Scenarios
