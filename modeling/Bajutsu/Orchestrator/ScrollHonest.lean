import Bajutsu.Orchestrator.Scroll

/-!
# A scroll is bounded and honest

What the loop remembers is what its steps have shown, so an end of the content is only reported on evidence that the
run holds. A look-back is never followed by another, and no gesture is made beyond the bound.
-/

namespace Bajutsu.Orchestrator.Scroll

open Drivers PyValue Raising

variable {fnmatchcase : String → String → Bool} {compile : String → Option (String → Bool)}
variable {σ : Type} {driver : Driver σ} {sha256 : List UInt8 → String}
variable {within : Option Selector} {viewport : Point} {axis : Axis}

/-! ## A view -/

/-- The position of an element in view is where its frame begins. -/
def Anchored (axis : Axis) (view : RegionView) : Prop :=
  ∀ k frame, get view.inView k = some frame → get view.positions k = some (lo axis frame)

theorem anchored_scanElement {bounds : Frame ℚ} {seen : RegionScan} {el : Element ℚ} (h : Anchored axis seen.view) :
    Anchored axis (scanElement axis bounds seen el).view := by
  rw [scanElement]
  dsimp only
  split
  · exact h
  split
  · exact h
  split
  · intro k frame hFrame
    dsimp only at hFrame ⊢
    by_cases hKey : k = (el.identifier, el.label)
    · subst hKey
      cases (get_pop_self _ _).symm.trans hFrame
    · rw [get_pop_ne _ hKey] at hFrame ⊢
      exact h k frame hFrame
  rename_i hFresh
  split
  · intro k frame hFrame
    dsimp only at hFrame ⊢
    by_cases hKey : k = (el.identifier, el.label)
    · subst hKey
      rw [get_set_self] at hFrame ⊢
      cases hFrame
      rfl
    · rw [get_set_ne _ _ hKey] at hFrame ⊢
      exact h k frame hFrame
  · intro k frame hFrame
    dsimp only at hFrame ⊢
    have hKey : k ≠ (el.identifier, el.label) := by
      rintro rfl
      rw [h _ frame hFrame] at hFresh
      exact hFresh rfl
    rw [get_set_ne _ _ hKey]
    exact h k frame hFrame

theorem anchored_regionView {tree : Elements} {view : RegionView}
    (h : regionView fnmatchcase compile tree within viewport axis = .ok view) : Anchored axis view := by
  rw [regionView] at h
  obtain ⟨⟨els, bounds⟩, -, h⟩ := bind_eq_ok h
  cases h
  have hFold (els : Elements) (seen : RegionScan) (hSeen : Anchored axis seen.view) :
      Anchored axis (els.foldl (scanElement axis bounds) seen).view := by
    induction els generalizing seen with
    | nil => exact hSeen
    | cons el els ih => exact ih _ (anchored_scanElement hSeen)
  exact hFold els {} (by rintro _ _ ⟨⟩)

theorem still_of_not_moved {before after : RegionView} (hBefore : Anchored axis before) (hAfter : Anchored axis after)
    (hStill : regionMoved before after = false) {k : ViewKey} {frame frame' : Frame ℚ}
    (hFrame : get before.inView k = some frame) (hFrame' : get after.inView k = some frame') :
    lo axis frame' = lo axis frame := by
  simp only [regionMoved, Bool.or_eq_false_iff, decide_eq_false_iff_not, not_not] at hStill
  have hNone := List.filter_eq_nil_iff.mp (List.map_eq_nil_iff.mp hStill.1.1) _ (get_mem (hBefore k frame hFrame))
  rw [hAfter k frame' hFrame'] at hNone
  simpa using hNone

theorem moved_of_not_moved {before after : RegionView} (hStill : regionMoved before after = false) :
    moved before after = [] := by
  simp only [regionMoved, Bool.or_eq_false_iff, decide_eq_false_iff_not, not_not] at hStill
  exact hStill.1.1

/-! ## The evidence of a run -/

def watched (steps : List Step) : List ViewKey := steps.flatMap fun s => moved s.before s.after

/-- The tree shows neither that the step moved the region nor that the region stands still. -/
structure Unjudged (axis : Axis) (earlier : List Step) (s : Step) : Prop where
  near : s.lookBack = true ∨ Scroll.overshot s.before s.after = false
  still : regionMoved s.before s.after = false
  silent : stopped axis s.before s.after (watched earlier) = none

def Missing.endOfContent : Missing → Bool
  | regionEnded _ => true
  | renderUnchanged => true
  | _ => false

inductive EndOfContent (axis : Axis) (steps : List Step) : Missing → Prop
  | cutNothing {earlier : List Step} {last : Step} (hSteps : steps = earlier ++ [last])
    (hStill : regionMoved last.before last.after = false) (hSeen : last.before.inView ≠ [])
    (hWhole : last.before.cutOff = []) : EndOfContent axis steps (.regionEnded .nothingCutOff)
  | stands {earlier : List Step} {last : Step} {k : ViewKey} {frame frame' : Frame ℚ}
    (hSteps : steps = earlier ++ [last]) (hStill : regionMoved last.before last.after = false)
    (hWatched : k ∈ watched earlier) (hBefore : get last.before.inView k = some frame)
    (hAfter : get last.after.inView k = some frame') (hStands : lo axis frame' = lo axis frame)
    (hLarger : ∀ c ∈ last.before.cutOff, extent axis c ≤ extent axis frame ∨ contains c frame = true) :
    EndOfContent axis steps (.regionEnded .moverStopped)
  | sameRender {earlier : List Step} {s last : Step} {digest : String} (hSteps : steps = earlier ++ [s, last])
    (hEarlier : Unjudged axis earlier s) (hLast : Unjudged axis (earlier ++ [s]) last)
    (hDigest : s.render = some (some digest)) (hSame : last.render = some (some digest)) :
    EndOfContent axis steps .renderUnchanged

/-- What the loop's variables say of the run so far. -/
structure Remembers (axis : Axis) (start : ℚ) (loop : Loop) (log : Log) : Prop where
  fractions : ∀ g ∈ log.gestures, min start swipeFraction ≤ g.fraction
  fraction : min start swipeFraction ≤ loop.fraction
  apart : log.gestures.IsChain fun a b => a.lookBack = true → b.lookBack = false
  last : ∀ g, log.gestures.getLast? = some g → g.lookBack = loop.reversedStep
  turning : loop.reverseNext = true → loop.reversedStep = false
  movers : loop.movers = watched log.steps
  digest : ∀ d, loop.digest = some d →
    ∃ earlier s, log.steps = earlier ++ [s] ∧ Unjudged axis earlier s ∧ s.render = some (some d)
  anchored : ∀ view, loop.previous = some view → Anchored axis view

theorem watched_append (earlier : List Step) (s : Step) :
    watched (earlier ++ [s]) = watched earlier ++ moved s.before s.after := by
  simp [watched]

theorem stopped_cases {before after : RegionView} {movers : List ViewKey} {evidence : Evidence}
    (h : stopped axis before after movers = some evidence) :
    evidence = .nothingCutOff ∧ before.inView ≠ [] ∧ before.cutOff = [] ∨
      evidence = .moverStopped ∧ ∃ k frame frame', k ∈ movers ∧ get before.inView k = some frame ∧
        get after.inView k = some frame' ∧
          ∀ c ∈ before.cutOff, extent axis c ≤ extent axis frame ∨ contains c frame = true := by
  rw [stopped] at h
  split at h
  · rename_i hWhole
    cases h
    simp only [Bool.and_eq_true, decide_eq_true_eq, List.isEmpty_iff] at hWhole
    exact .inl ⟨rfl, hWhole⟩
  split at h
  · rename_i hAny
    cases h
    obtain ⟨k, hMover, hSpeaks⟩ := List.any_eq_true.mp hAny
    rw [speaks, Bool.and_eq_true, Option.any_eq_true] at hSpeaks
    obtain ⟨hAfter, frame, hFrame, hAll⟩ := hSpeaks
    obtain ⟨frame', hFrame'⟩ := Option.isSome_iff_exists.mp hAfter
    refine .inr ⟨rfl, k, frame, frame', hMover, hFrame, hFrame', fun c hc => ?_⟩
    simpa using List.all_eq_true.mp hAll c hc
  · cases h

/-! ## Only the loop reports the end -/

theorem renderDigest_raised {st : σ} {e : Raised} (h : (renderDigest driver sha256 st).1 = .error e) :
    ∃ text, e = .other text := by
  rw [renderDigest] at h
  split at h
  · split at h
    · cases h
      exact ⟨_, rfl⟩
    · cases h
    · cases h
  · cases h

theorem settleFrom_raised {deadline : ℚ} {digest : String} {st : σ} {e : Raised}
    (h : (settleFrom driver sha256 deadline digest st).1 = .error e) : ∃ text, e = .other text := by
  revert h
  fun_induction settleFrom driver sha256 deadline digest st with
  | case1 => rintro ⟨⟩
  | case2 => rintro ⟨⟩
  | case3 _ _ _ _ _ _ _ ih => exact ih
  | case4 _ _ _ _ => exact renderDigest_raised

theorem settledRender_raised {st : σ} {e : Raised} (h : (settledRender driver sha256 st).1 = .error e) :
    ∃ text, e = .other text := by
  rw [settledRender] at h
  split at h
  · exact settleFrom_raised h
  · rename_i hDigest
    exact renderDigest_raised (hDigest ▸ h)

/-! ## One judgement -/

theorem judgeRender_remembers {start : ℚ} {loop : Loop} {log : Log} {previous view : RegionView} {settled : Option String}
    (h : Remembers axis start loop log)
    (hJudged : Unjudged axis log.steps ⟨previous, view, loop.reversedStep, some settled⟩) :
    let log' := { log with steps := log.steps ++ [⟨previous, view, loop.reversedStep, some settled⟩] }
    (∀ loop', judgeRender { loop with movers := loop.movers ++ moved previous view } settled = .ok loop' →
        Remembers axis start loop' log') ∧
      ∀ why, judgeRender { loop with movers := loop.movers ++ moved previous view } settled =
        .error (.elementNotFound why) → EndOfContent axis log'.steps why := by
  have hMovers : loop.movers ++ moved previous view =
      watched (log.steps ++ [⟨previous, view, loop.reversedStep, some settled⟩]) := by
    rw [watched_append, h.movers]
  have hDigest (d : String) (hSettled : settled = some d) : ∃ earlier s,
      log.steps ++ [⟨previous, view, loop.reversedStep, some settled⟩] = earlier ++ [s] ∧ Unjudged axis earlier s ∧
        s.render = some (some d) := ⟨_, _, rfl, hJudged, by rw [hSettled]⟩
  have hKeeps (unobserved : Bool) : Remembers axis start
      { loop with movers := loop.movers ++ moved previous view, unobserved, digest := settled }
      { log with steps := log.steps ++ [⟨previous, view, loop.reversedStep, some settled⟩] } :=
    ⟨h.fractions, h.fraction, h.apart, h.last, h.turning, hMovers, hDigest, h.anchored⟩
  unfold judgeRender
  split
  · rename_i d d' hLoop
    split
    · rename_i hSame
      subst hSame
      refine ⟨by rintro _ ⟨⟩, ?_⟩
      rintro _ ⟨⟩
      obtain ⟨earlier, s, hSteps, hEarlier, hRender⟩ := h.digest d hLoop
      rw [hSteps] at hJudged
      refine @EndOfContent.sameRender axis _ earlier s _ d ?_ hEarlier hJudged hRender rfl
      rw [hSteps, List.append_assoc]
      rfl
    · refine ⟨?_, by rintro _ ⟨⟩⟩
      rintro _ ⟨⟩
      exact hKeeps false
  · refine ⟨?_, by rintro _ ⟨⟩⟩
    rintro _ ⟨⟩
    exact hKeeps true

theorem judge_remembers {start : ℚ} {loop : Loop} {log : Log} {previous view : RegionView} {st : σ}
    (h : Remembers axis start loop log) (hPrevious : loop.previous = some previous) (hView : Anchored axis view) :
    let judged := judge driver sha256 axis loop previous view st
    let log' := { log with steps := log.steps ++ [⟨previous, view, loop.reversedStep, judged.render⟩] }
    (∀ loop', judged.result = .ok loop' → Remembers axis start loop' log') ∧
      ∀ why, judged.result = .error (.elementNotFound why) → why.endOfContent = true →
        EndOfContent axis log'.steps why := by
  have hBefore := h.anchored previous hPrevious
  have hMovers (render : Option (Option String)) : loop.movers ++ moved previous view =
      watched (log.steps ++ [⟨previous, view, loop.reversedStep, render⟩]) := by
    rw [watched_append, h.movers]
  intro judged log'
  simp only [judged, log']
  unfold judge
  dsimp only
  split
  · rename_i hOvershot
    split
    · exact ⟨by rintro _ ⟨⟩, by rintro _ ⟨⟩ ⟨⟩⟩
    · refine ⟨?_, by rintro _ ⟨⟩⟩
      rintro _ ⟨⟩
      simp only [Bool.and_eq_true, Bool.not_eq_true'] at hOvershot
      exact ⟨h.fractions, (min_le_right _ _).trans (le_max_right _ _), h.apart, h.last, fun _ => hOvershot.1,
        hMovers none, by rintro _ ⟨⟩, h.anchored⟩
  rename_i hNear
  split
  · refine ⟨?_, by rintro _ ⟨⟩⟩
    rintro _ ⟨⟩
    exact ⟨h.fractions, h.fraction, h.apart, h.last, h.turning, hMovers none, by rintro _ ⟨⟩, h.anchored⟩
  rename_i hMoved
  have hStill : regionMoved previous view = false := by simpa using hMoved
  have hSame : loop.movers ++ moved previous view = watched log.steps := by
    rw [moved_of_not_moved hStill, List.append_nil, h.movers]
  rw [hSame]
  split
  · rename_i evidence hStopped
    refine ⟨by rintro _ ⟨⟩, ?_⟩
    rintro _ ⟨⟩ -
    obtain ⟨rfl, hSeen, hWhole⟩ | ⟨rfl, k, frame, frame', hMover, hFrame, hFrame', hLarger⟩ := stopped_cases hStopped
    · exact .cutNothing rfl hStill hSeen hWhole
    · exact .stands rfl hStill hMover hFrame hFrame' (still_of_not_moved hBefore hView hStill hFrame hFrame') hLarger
  · rename_i hSilent
    cases hRender : settledRender driver sha256 st with
    | mk result st' =>
      cases result with
      | error e =>
        dsimp only
        refine ⟨by rintro _ ⟨⟩, ?_⟩
        rintro why ⟨⟩
        obtain ⟨text, hText⟩ := @settledRender_raised σ driver sha256 st _ (by rw [hRender])
        cases hText
      | ok settled =>
        have hJudged : Unjudged axis log.steps ⟨previous, view, loop.reversedStep, some settled⟩ :=
          ⟨by simpa [Classical.or_iff_not_imp_left] using hNear, hStill, hSilent⟩
        obtain ⟨hOk, hEnd⟩ := judgeRender_remembers h hJudged
        rw [hSame] at hOk hEnd
        exact ⟨hOk, fun why hWhy _ => hEnd why hWhy⟩

theorem observe_remembers {start : ℚ} {loop : Loop} {log : Log} {view : RegionView} {st : σ}
    (h : Remembers axis start loop log) (hView : Anchored axis view) :
    let judged := observe driver sha256 axis loop view st
    (∀ loop', judged.result = .ok loop' → Remembers axis start loop' (log.judged loop view judged.render)) ∧
      ∀ why, judged.result = .error (.elementNotFound why) → why.endOfContent = true →
        EndOfContent axis (log.judged loop view judged.render).steps why := by
  unfold observe Log.judged
  cases hPrevious : loop.previous with
  | none =>
    refine ⟨?_, by rintro _ ⟨⟩⟩
    rintro _ ⟨⟩
    exact h
  | some previous => exact judge_remembers h hPrevious hView

theorem judged_log (log : Log) (loop : Loop) (view : RegionView) (render : Option (Option String)) :
    (log.judged loop view render).gestures = log.gestures ∧ (log.judged loop view render).reads = log.reads := by
  rw [Log.judged]
  split
  · exact ⟨rfl, rfl⟩
  · exact ⟨rfl, rfl⟩

/-! ## One read -/

theorem findAll_of_resolved {tree : Elements} {sel : Selector} {el : Element ℚ}
    (h : resolveUnique fnmatchcase compile tree sel = .ok el) (tree' : Elements) :
    ¬Raises (findAll fnmatchcase compile tree' sel) := by
  intro hRaises
  have hBad {s : Selector} (hReached : PatternReached fnmatchcase compile tree' s) :
      ∃ pattern, s.HasPattern pattern ∧ compile pattern = none := by
    induction hReached with
    | here _ _ _ _ _ hPattern hBad => exact ⟨_, .here hPattern, hBad⟩
    | within hWithin _ ih =>
      obtain ⟨pattern, hPattern, hBad⟩ := ih
      exact ⟨pattern, .within hWithin hPattern, hBad⟩
  obtain ⟨pattern, hPattern, hNone⟩ := hBad (raises_findAll.mp hRaises)
  obtain ⟨e, hError, -⟩ := @resolveUnique_refused ℚ fnmatchcase compile tree sel pattern _ _ _ _ hPattern hNone
  cases h.symm.trans hError

theorem view_of_endpoints {tree : Elements} {way : Direction} {fraction : ℚ} {points : Point × Point}
    (h : stepEndpoints fnmatchcase compile tree way within viewport fraction = .ok points) (tree' : Elements) :
    ∃ view, regionView fnmatchcase compile tree' within viewport axis = .ok view := by
  cases hWithin : within with
  | none => exact ⟨_, rfl⟩
  | some sel =>
    rw [hWithin, stepEndpoints] at h
    obtain ⟨el, hResolved, -⟩ := bind_eq_ok h
    obtain ⟨found, hFound⟩ := not_raises_iff.mp (findAll_of_resolved hResolved tree')
    rw [regionView, region]
    dsimp only
    rw [hFound]
    rcases found with _ | ⟨container, _ | _⟩
    · exact ⟨_, rfl⟩
    · exact ⟨_, rfl⟩
    · exact ⟨_, rfl⟩

theorem pollRegion_read {before : RegionView} {deadline : ℚ} {tree : Elements} {reads : List Elements} {st : σ}
    (hViews : ∀ tree, ∃ view, regionView fnmatchcase compile tree within viewport axis = .ok view)
    (hRead : reads.getLast? = some tree) :
    ∃ tree' reads' st', pollRegion fnmatchcase compile driver before within viewport axis deadline tree reads st =
      (.ok tree', reads', st') ∧ reads'.getLast? = some tree' := by
  fun_induction pollRegion fnmatchcase compile driver before within viewport axis deadline tree reads st with
  | case1 tree _ _ _ _ hError =>
    obtain ⟨view, hView⟩ := hViews tree
    cases hView.symm.trans hError
  | case2 => exact ⟨_, _, _, rfl, hRead⟩
  | case3 _ _ _ _ _ _ _ _ ih => exact ih (by rw [List.getLast?_append, List.getLast?_singleton]; rfl)
  | case4 => exact ⟨_, _, _, rfl, hRead⟩

theorem regionAfterStep_read {before : RegionView} {reads : List Elements} {st : σ}
    (hViews : ∀ tree, ∃ view, regionView fnmatchcase compile tree within viewport axis = .ok view) :
    ∃ tree' reads' st', regionAfterStep fnmatchcase compile driver before within viewport axis reads st =
      (.ok tree', reads', st') ∧ reads'.getLast? = some tree' := by
  have hRead (tree : Elements) : (reads ++ [tree]).getLast? = some tree := by simp
  unfold regionAfterStep
  dsimp only
  split
  · exact ⟨_, _, _, rfl, hRead _⟩
  · exact pollRegion_read hViews (hRead _)

/-! ## The run -/

variable {to_ : Selector} {direction : Direction} {maxScrolls : Nat} {stop : Stop σ}

/-- The target is resolved in the tree, and the stop condition answers that it is where it is wanted. -/
def Arrived (fnmatchcase : String → String → Bool) (compile : String → Option (String → Bool)) (viewport : Point)
    (to_ : Selector) (stop : Stop σ) (tree : Elements) (st : σ) : Prop :=
  ∃ target, resolveUnique fnmatchcase compile tree to_ = .ok target ∧ (stop target.frame viewport st).1 = .ok true

theorem arrived_iff {tree : Elements} {st : σ} : (arrived fnmatchcase compile viewport to_ stop tree st).1 = .ok true ↔
    Arrived fnmatchcase compile viewport to_ stop tree st := by
  unfold arrived resolveTarget Arrived
  cases hResolved : resolveUnique fnmatchcase compile tree to_ with
  | error e =>
    refine iff_of_false ?_ (by rintro ⟨_, ⟨⟩, _⟩)
    dsimp only
    split
    · rename_i hTarget
      rintro ⟨⟩
    · rintro ⟨⟩
    · rename_i hTarget
      split at hTarget
      · cases hTarget
      · cases hTarget
  | ok target =>
    dsimp only
    cases hStop : (stop target.frame viewport st).1 with
    | error fault =>
      refine iff_of_false (by rintro ⟨⟩) ?_
      rintro ⟨found, hFound, hYes⟩
      cases hFound
      cases hStop.symm.trans hYes
    | ok yes =>
      constructor
      · intro hYes
        cases hYes
        exact ⟨target, rfl, hStop⟩
      · rintro ⟨found, hFound, hYes⟩
        cases hFound
        cases hStop.symm.trans hYes
        rfl

/-- Bounded by so many gestures, and honest in what it returns and reports. -/
structure Honest (fnmatchcase : String → String → Bool) (compile : String → Option (String → Bool)) (viewport : Point)
    (axis : Axis) (to_ : Selector) (stop : Stop σ) (maxScrolls : Nat) (start : ℚ) (out : Outcome σ) : Prop where
  bounded : out.log.gestures.length ≤ maxScrolls
  fractions : ∀ g ∈ out.log.gestures, min start swipeFraction ≤ g.fraction
  apart : out.log.gestures.IsChain fun a b => a.lookBack = true → b.lookBack = false
  read : out.log.reads.getLast? = some out.tree
  returns : out.result = .ok () ↔ Arrived fnmatchcase compile viewport to_ stop out.tree out.looked
  ended : ∀ why, out.result = .error (.elementNotFound why) → why.endOfContent = true →
    EndOfContent axis out.log.steps why

theorem ofResolve_endOfContent {e : ResolveError} {why : Missing} (h : ofResolve e = .elementNotFound why) :
    why.endOfContent = false := by
  rw [ofResolve] at h
  split at h
  · cases h
    rfl
  · cases h

theorem raised_endOfContent {fault : Fault} {why : Missing} (h : fault.raised = .elementNotFound why) :
    why.endOfContent = false := by
  cases fault with
  | elementNotFound text =>
    cases h
    rfl
  | _ => cases h

theorem arrived_endOfContent {tree : Elements} {st : σ} {why : Missing}
    (h : (arrived fnmatchcase compile viewport to_ stop tree st).1 = .error (.elementNotFound why)) :
    why.endOfContent = false := by
  unfold arrived resolveTarget at h
  split at h
  · rename_i hTarget
    cases h
    split at hTarget
    · cases hTarget
    · split at hTarget
      · cases hTarget
      · exact ofResolve_endOfContent (Except.error.inj hTarget)
  · cases h
  · rename_i target _
    cases hStop : (stop target.frame viewport st).1 with
    | ok yes =>
      rw [hStop] at h
      cases h
    | error fault =>
      rw [hStop] at h
      exact raised_endOfContent (Except.error.inj h)

/-- A gesture in the way that was judged keeps what the loop remembers. -/
theorem Remembers.swipe {start : ℚ} {loop : Loop} {log : Log} {view : RegionView} {reads : List Elements}
    (h : Remembers axis start loop log) (hView : Anchored axis view) :
    Remembers axis start { loop with reversedStep := loop.reverseNext, reverseNext := false, previous := some view }
      { log with reads, gestures := log.gestures ++ [⟨loop.reverseNext, loop.fraction⟩] } where
  fractions g hg := by
    obtain hOld | hNew := List.mem_append.mp hg
    · exact h.fractions g hOld
    · obtain rfl := List.mem_singleton.mp hNew
      exact h.fraction
  fraction := h.fraction
  apart := by
    refine List.isChain_append.mpr ⟨h.apart, .singleton _, ?_⟩
    rintro a hLast _ ⟨⟩ hLook
    have hReversed := h.last a hLast
    by_contra hNext
    rw [h.turning (by simpa using hNext), hLook] at hReversed
    cases hReversed
  last g hg := by
    rw [List.getLast?_append] at hg
    cases hg
    rfl
  turning := by rintro ⟨⟩
  movers := h.movers
  digest := h.digest
  anchored := by
    rintro _ ⟨⟩
    exact hView

theorem scrollFrom_honest {start : ℚ} {left : Nat} {loop : Loop} {tree : Elements} {log : Log} {st : σ}
    (h : Remembers axis start loop log) (hRead : log.reads.getLast? = some tree)
    (hLeft : log.gestures.length + left = maxScrolls) :
    Honest fnmatchcase compile viewport axis to_ stop maxScrolls start
      (scrollFrom fnmatchcase compile driver sha256 within viewport axis to_ direction maxScrolls stop left loop tree log
        st) := by
  induction left using Nat.strong_induction_on generalizing loop tree log st with
  | _ left ih =>
    have hExit {e : Raised} {out : Log} {st' : σ} (hFractions : ∀ g ∈ out.gestures, min start swipeFraction ≤ g.fraction)
        (hApart : out.gestures.IsChain fun a b => a.lookBack = true → b.lookBack = false)
        (hCount : out.gestures.length ≤ maxScrolls) (hReads : out.reads = log.reads)
        (hFound : (arrived fnmatchcase compile viewport to_ stop tree st).1 ≠ .ok true)
        (hEnd : ∀ why, e = .elementNotFound why → why.endOfContent = true → EndOfContent axis out.steps why) :
        Honest fnmatchcase compile viewport axis to_ stop maxScrolls start ⟨.error e, tree, st, out, st'⟩ :=
      ⟨hCount, hFractions, hApart, hReads ▸ hRead, iff_of_false (by rintro ⟨⟩) (hFound ∘ arrived_iff.mpr),
        fun why hWhy => hEnd why (Except.error.inj hWhy)⟩
    have hNever {why : Missing} {p : Prop} (hFalse : why.endOfContent = false) (hTrue : why.endOfContent = true) : p := by
      cases hFalse.symm.trans hTrue
    unfold scrollFrom
    dsimp only
    cases hFound : (arrived fnmatchcase compile viewport to_ stop tree st).1 with
    | error e =>
      refine hExit h.fractions h.apart (by omega) rfl (by rw [hFound]; rintro ⟨⟩) ?_
      rintro why rfl
      exact hNever (arrived_endOfContent hFound)
    | ok yes =>
      cases yes with
      | true =>
        exact ⟨by dsimp only; omega, h.fractions, h.apart, hRead, iff_of_true rfl (arrived_iff.mp hFound), by rintro _ ⟨⟩⟩
      | false =>
        have hNot : (arrived fnmatchcase compile viewport to_ stop tree st).1 ≠ .ok true := by
          rw [hFound]
          rintro ⟨⟩
        cases hView : regionView fnmatchcase compile tree within viewport axis with
        | error e =>
          exact hExit h.fractions h.apart (by omega) rfl hNot fun why hWhy => hNever (ofResolve_endOfContent hWhy)
        | ok view =>
          have hAnchored := anchored_regionView hView
          dsimp only
          generalize (arrived fnmatchcase compile viewport to_ stop tree st).2 = st₀
          obtain ⟨hOk, hEnd⟩ := @observe_remembers σ driver sha256 axis start loop log view st₀ h hAnchored
          generalize observe driver sha256 axis loop view st₀ = judged at hOk hEnd
          obtain ⟨hGestures, hReads⟩ := judged_log log loop view judged.render
          cases hResult : judged.result with
          | error e =>
            refine hExit (hGestures ▸ h.fractions) (hGestures ▸ h.apart) (by rw [hGestures]; omega) hReads hNot ?_
            rintro why rfl
            exact hEnd why hResult
          | ok loop' =>
            have hKnows := hOk loop' hResult
            cases left with
            | zero =>
              exact hExit hKnows.fractions hKnows.apart (by rw [hGestures]; omega) hReads hNot (by rintro _ ⟨⟩ ⟨⟩)
            | succ left =>
              have hSwipe (reads : List Elements) := @Remembers.swipe axis start loop' _ view reads hKnows hAnchored
              dsimp only
              cases hPoints : stepEndpoints fnmatchcase compile tree
                  (if loop'.reverseNext then direction.reverse else direction) within viewport loop'.fraction with
              | error e =>
                exact hExit hKnows.fractions hKnows.apart (by rw [hGestures]; omega) hReads hNot
                  fun why hWhy => hNever (ofResolve_endOfContent hWhy)
              | ok points =>
                dsimp only
                have hCount : (log.judged loop view judged.render).gestures.length + (left + 1) = maxScrolls := by
                  rw [hGestures]
                  exact hLeft
                cases hSwiped : (driver.scroll points.1 points.2 judged.st).1 with
                | error fault =>
                  refine hExit (hSwipe log.reads).fractions (hSwipe log.reads).apart ?_ hReads hNot
                    fun why hWhy => hNever (raised_endOfContent hWhy)
                  rw [List.length_append, List.length_singleton]
                  omega
                | ok _ =>
                  obtain ⟨next, reads, st', hStep, hNext⟩ := @regionAfterStep_read fnmatchcase compile σ driver within
                    viewport axis view (log.judged loop view judged.render).reads
                    (driver.scroll points.1 points.2 judged.st).2 (view_of_endpoints hPoints)
                  dsimp only
                  rw [hStep]
                  refine ih left (by omega) (hSwipe reads) hNext ?_
                  rw [List.length_append, List.length_singleton]
                  omega

theorem scrollToTarget_honest (amount : Option ℚ) (st : σ) :
    Honest fnmatchcase compile
      (scrollToTarget fnmatchcase compile driver sha256 within to_ direction maxScrolls stop amount st).1 direction.axis to_
      stop maxScrolls (amount.getD stepFraction)
      (scrollToTarget fnmatchcase compile driver sha256 within to_ direction maxScrolls stop amount st).2 := by
  unfold scrollToTarget
  refine scrollFrom_honest ⟨by rintro _ ⟨⟩, min_le_left _ _, .nil, by rintro _ ⟨⟩, by rintro ⟨⟩, rfl, by rintro _ ⟨⟩,
    by rintro _ ⟨⟩⟩ rfl ?_
  exact Nat.zero_add _

/-! ## Tapping -/

/-- A recovery scroll raises this, and it is none of the `ElementNotFound`s that the recovery takes for "not tappable". -/
def ScrollRaises (fnmatchcase : String → String → Bool) (compile : String → Option (String → Bool)) (driver : Driver σ)
    (sha256 : List UInt8 → String) (sel : Selector) (e : Raised) : Prop :=
  (∀ why, e ≠ .elementNotFound why) ∧
    ∃ way bound st, (scrollUntilTappable fnmatchcase compile driver sha256 none sel way bound st).1 = .error e

/-- So many actuations and none after one that succeeded, and a success or a failure that is the last one's. -/
structure Recovered (fnmatchcase : String → String → Bool) (compile : String → Option (String → Bool))
    (driver : Driver σ) (sha256 : List UInt8 → String) (sel : Selector) (bound : Nat) (result : Except Raised Unit)
    (acts : List (Except Fault Unit)) : Prop where
  bounded : acts.length ≤ bound
  once : ∀ earlier last, acts = earlier ++ [last] → ∀ act ∈ earlier, act ≠ .ok ()
  returns : result = .ok () ↔ acts.getLast? = some (.ok ())
  raises : ∀ e, result = .error e →
    (∃ text, e = .elementNotTappable text) ∨ ScrollRaises fnmatchcase compile driver sha256 sel e

variable {actuate : σ → Except Fault Unit × σ} {sel : Selector}

theorem recoverFrom_recovered {i bound : Nat} {ways : List Direction} {obstruction : String}
    {acts : List (Except Fault Unit)} {st : σ}
    (hActs : ∀ st, (actuate st).1 = .ok () ∨ ∃ text, (actuate st).1 = .error (.elementNotTappable text))
    (hNone : ∀ act ∈ acts, act ≠ .ok ()) (hSome : acts ≠ []) (hBound : acts.length + ways.length ≤ bound) :
    let out := recoverFrom fnmatchcase compile driver sha256 sel actuate i obstruction acts st ways
    Recovered fnmatchcase compile driver sha256 sel bound out.1 out.2.1 := by
  have hFails {e : Raised} {acts : List (Except Fault Unit)} (hNone : ∀ act ∈ acts, act ≠ .ok ())
      (hLength : acts.length ≤ bound)
      (hRaises : (∃ text, e = .elementNotTappable text) ∨ ScrollRaises fnmatchcase compile driver sha256 sel e) :
      Recovered fnmatchcase compile driver sha256 sel bound (.error e) acts := by
    refine ⟨hLength, ?_, iff_of_false (by rintro ⟨⟩) fun hLast => hNone _ (List.mem_of_getLast? hLast) rfl, ?_⟩
    · rintro earlier last rfl act hAct
      exact hNone act (List.mem_append_left _ hAct)
    · rintro _ ⟨⟩
      exact hRaises
  induction ways generalizing i obstruction acts st with
  | nil => exact hFails hNone hBound (.inl ⟨_, rfl⟩)
  | cons way ways ih =>
    rw [List.length_cons] at hBound
    unfold recoverFrom
    dsimp only
    split
    · exact ih hNone hSome (by omega)
    · rename_i e hOther hScrolled
      exact hFails hNone (Nat.le_trans (Nat.le_add_right _ _) hBound) (.inr ⟨hOther, _, _, _, hScrolled⟩)
    · split
      · rename_i text hAct
        refine ih ?_ (by simp) (by rw [List.length_append, List.length_singleton]; omega)
        intro act hMem
        obtain hOld | hNew := List.mem_append.mp hMem
        · exact hNone act hOld
        · obtain rfl := List.mem_singleton.mp hNew
          rw [hAct]
          rintro ⟨⟩
      · rename_i hOther
        obtain hOk | ⟨text, hText⟩ := hActs
          (scrollUntilTappable fnmatchcase compile driver sha256 none sel way (tapRecoveryMaxScrolls * (i + 1)) st).2
        · rw [hOk]
          refine ⟨by rw [List.length_append, List.length_singleton]; omega, ?_, iff_of_true rfl (by simp), by rintro _ ⟨⟩⟩
          intro earlier last hSplit
          rw [← (List.append_inj' hSplit rfl).1]
          exact hNone
        · exact absurd hText (hOther text)

theorem tapWithRecovery_recovered
    (hActs : ∀ st, (actuate st).1 = .ok () ∨ ∃ text, (actuate st).1 = .error (.elementNotTappable text)) (st : σ) :
    let out := tapWithRecovery fnmatchcase compile driver sha256 sel actuate st
    Recovered fnmatchcase compile driver sha256 sel 3 out.1 out.2.1 := by
  unfold tapWithRecovery
  dsimp only
  obtain hOk | ⟨text, hText⟩ := hActs st
  · rw [hOk]
    refine ⟨by simp, ?_, iff_of_true rfl rfl, by rintro _ ⟨⟩⟩
    intro earlier last hSplit act hAct
    obtain rfl : earlier = [] := by
      have := congrArg List.length hSplit
      rw [List.length_append, List.length_singleton, List.length_singleton] at this
      exact List.eq_nil_of_length_eq_zero (by omega)
    cases hAct
  · rw [hText]
    refine recoverFrom_recovered hActs ?_ (List.cons_ne_nil _ _) le_rfl
    rintro act hAct rfl
    cases List.mem_singleton.mp hAct

/-- A scroll to a target is bounded and honest, and so is the recovery of a tap whose actuation succeeds or finds the
target not tappable. -/
theorem scroll_and_tap_honest
    (hActs : ∀ st, (actuate st).1 = .ok () ∨ ∃ text, (actuate st).1 = .error (.elementNotTappable text))
    (amount : Option ℚ) (st : σ) :
    let scrolled := scrollToTarget fnmatchcase compile driver sha256 within to_ direction maxScrolls stop amount st
    let tapped := tapWithRecovery fnmatchcase compile driver sha256 sel actuate st
    Honest fnmatchcase compile scrolled.1 direction.axis to_ stop maxScrolls (amount.getD stepFraction) scrolled.2 ∧
      Recovered fnmatchcase compile driver sha256 sel 3 tapped.1 tapped.2.1 :=
  ⟨scrollToTarget_honest amount st, tapWithRecovery_recovered hActs st⟩

/-! ## Two buttons of one label -/

def button (y : ℚ) : Element ℚ := ⟨none, some "OK", [], none, (0, y, 10, 10), none, false⟩

theorem twins_sleep (d st : ℚ) (_ : 0 ≤ d) : st + d ≤ st + d := le_rfl

/-- A screen that always shows both buttons, read in no time. -/
def twins : Driver ℚ where
  time st := st
  tick st := st
  query st := ([button 0, button 20], st)
  sleep d st := st + d
  time_tick _ := le_rfl
  time_query _ := le_rfl
  time_sleep := twins_sleep
  viewport := none
  readLag _ := 0
  scroll _ _ st := (.ok (), st)
  takesScreenshots := false
  screenshot st := (.failed, st)
  isTappable _ st := (.ok true, st)
  time_screenshot _ := le_rfl

def ok : Selector := { label := some "OK" }

def covered (st : ℚ) : Except Fault Unit × ℚ := (.error (.elementNotTappable "covered"), st)

theorem resolve_twins : resolveUnique (fun _ _ => false) (fun _ => none) [button 0, button 20] ok =
    .error (.ambiguous 2 ok) := by
  have hKey : key (button 0) ≠ key (button 20) := by
    intro h
    have hFrame := congrArg Key.frame h
    simp [key, button] at hFrame
  have hFound : findAll (fun _ _ => false) (fun _ => none) [button 0, button 20] ok = .ok [button 0, button 20] := rfl
  have hApart : collapseIdenticalDuplicates [button 0, button 20] = [button 0, button 20] := by
    simp [collapseIdenticalDuplicates, setdefault, PyValue.get, PyValue.set, hKey]
  rw [resolveUnique, hFound]
  dsimp only
  rw [hApart]
  rfl

theorem twins_escape :
    (tapWithRecovery (fun _ _ => false) (fun _ => none) twins (fun _ => "") ok covered 0).1 =
      .error (.unresolvable (.ambiguous 2 ok)) := by
  have hScrolled : scrollUntilTappable (fun _ _ => false) (fun _ => none) twins (fun _ => "") none ok .down
      (tapRecoveryMaxScrolls * (0 + 1)) 0 = (.error (.unresolvable (.ambiguous 2 ok)), 0) := by
    unfold scrollUntilTappable scrollToTarget scrollFrom arrived resolveTarget
    simp [twins, screenSize, resolve_twins, ResolveError.exceptionClass, ofResolve]
  unfold tapWithRecovery recoverFrom tapRecoveryDirections
  simp only [covered]
  rw [hScrolled]

theorem covered_fails (st : ℚ) : (covered st).1 = .ok () ∨ ∃ text, (covered st).1 = .error (.elementNotTappable text) :=
  .inr ⟨_, rfl⟩

def anywhere : Stop ℚ := fun _ _ st => (.ok true, st)

theorem scroll_and_tap_twins :
    let scrolled := scrollToTarget (fun _ _ => false) (fun _ => none) twins (fun _ => "") none ok .down 15 anywhere
      (some (1 / 2)) 0
    let tapped := tapWithRecovery (fun _ _ => false) (fun _ => none) twins (fun _ => "") ok covered 0
    Honest (fun _ _ => false) (fun _ => none) scrolled.1 .y ok anywhere 15 (1 / 2) scrolled.2 ∧
      Recovered (fun _ _ => false) (fun _ => none) twins (fun _ => "") ok 3 tapped.1 tapped.2.1 :=
  scroll_and_tap_honest covered_fails (some (1 / 2)) 0

/-- A recovery that does not end in a tap may raise neither of the two exceptions. -/
theorem recovery_raises_other : ¬∀ (fnmatchcase : String → String → Bool) (compile : String → Option (String → Bool))
    (σ : Type) (driver : Driver σ) (sha256 : List UInt8 → String) (sel : Selector) (actuate : σ → Except Fault Unit × σ),
    (∀ st, (actuate st).1 = .ok () ∨ ∃ text, (actuate st).1 = .error (.elementNotTappable text)) →
      ∀ st e, (tapWithRecovery fnmatchcase compile driver sha256 sel actuate st).1 = .error e →
        (∃ text, e = .elementNotTappable text) ∨ e = .appNotInFront := by
  intro h
  obtain ⟨text, hText⟩ | hFront := h _ _ ℚ twins (fun _ => "") ok covered covered_fails 0 _ twins_escape
  · cases hText
  · cases hFront

end Bajutsu.Orchestrator.Scroll
