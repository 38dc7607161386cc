import Bajutsu.Orchestrator.StepRunner

/-!
# What the roster keeps over a scenario

A status only moves forward, so what was brought up stays up until it is retired, in this phase and the next ones,
and what was installed is not installed again. The primary moves between top-level steps only, so it is the same
for all that a step polls.
-/

namespace Bajutsu.Orchestrator

open PyValue Transition

variable {E R : Type} {cfg : Config E R}

/-! ## One step -/

theorem mem_keys_live (roster : TargetRoster E R) (started : List (String × R)) (name : String) :
    name ∈ (roster.live started).map Prod.fst ↔
      name ∈ started.map Prod.fst ∨ name ∈ roster.runtimes.map Prod.fst := by
  rw [TargetRoster.live]
  generalize roster.runtimes = items
  induction items generalizing started with
  | nil => simp
  | cons item items ih =>
    rw [List.foldl_cons, ih, map_fst_set, List.map_cons, List.mem_cons]
    split
    · rename_i hMem
      constructor
      · rintro (h | h)
        · exact .inl h
        · exact .inr (.inr h)
      · rintro (h | rfl | h)
        · exact .inl h
        · exact .inl hMem
        · exact .inr h
    · rw [List.mem_append, List.mem_singleton, or_assoc]

/-- A step that runs runs where it is, or on its target's runner, which it may bring up first. -/
theorem route_runs {st fin : State E R} {step : Step} {activation : Answer R} {runner : String}
    (h : route cfg st step activation = .runs runner fin) :
    (fin = st ∧ runner = st.runner cfg ∧ (step.resolvedTarget = none ∨ step.action.isInstallApp = true)) ∨
      ∃ target, step.resolvedTarget = some target ∧ runner = target ∧
        st.roster.unavailable target step.action = none ∧
        (fin = st ∧ target ∈ st.byTarget ∨
          target ∉ st.byTarget ∧ step.action.isInstallApp = false ∧ st.roster.statusOf target = .installed ∧
            ∃ runtime, fin = st.bringUp target runtime) := by
  rw [route] at h
  split at h
  · rename_i hTarget
    cases h
    exact .inl ⟨rfl, rfl, .inl hTarget⟩
  · rename_i target hTarget
    split at h
    · cases h
    · rename_i hAvailable
      split at h
      · rename_i hMem
        cases h
        exact .inr ⟨_, hTarget, rfl, hAvailable, .inl ⟨rfl, hMem⟩⟩
      · rename_i hMem
        split at h
        · rename_i hInstall
          cases h
          exact .inl ⟨rfl, rfl, .inr hInstall⟩
        · rename_i hInstall
          split at h
          · rename_i hStatus
            cases activation with
            | unwired => cases h
            | raised cause => cases h
            | crashed => cases h
            | returned runtime =>
              have hUp : target ∈ (st.bringUp target runtime).byTarget := by simp [State.bringUp]
              dsimp only at h
              rw [dispatch, if_pos hUp] at h
              cases h
              refine .inr ⟨_, hTarget, rfl, hAvailable, .inr ⟨hMem, ?_, hStatus, runtime, rfl⟩⟩
              simpa using hInstall
          · rw [dispatch, if_neg hMem] at h
            cases h

theorem statusOf_bringUp (st : State E R) (target name : String) (runtime : R) :
    (st.bringUp target runtime).roster.statusOf name =
      if name = target then .running else st.roster.statusOf name := by
  split
  · rename_i hName
    subst hName
    exact TargetRoster.statusOf_mark_self name .running
  · rename_i hName
    exact TargetRoster.statusOf_mark_ne hName .running

/-- A lifecycle step changes the roster alone; any other one is under way, polling what is watched now. -/
theorem perform_cases {st fin : State E R} {runner : String} {step : Step} {installation : Answer (List String)}
    (h : perform cfg st runner step installation = some fin) :
    (∃ member keepData, step.action = .installApp member keepData ∧
        fin = { st with roster := (st.roster.installMember member installation).2 }) ∨
      (∃ target, step.action = .setPrimaryTarget target ∧
        fin = { st with roster := (st.roster.movePrimary target).2 }) ∨
      fin = { st with frames := ⟨runner, st.roster.interruptsFor runner (cfg.pinned runner)⟩ :: st.frames } := by
  rw [perform] at h
  split at h
  · rename_i member keepData hAction
    cases hInstall : st.roster.installMember member installation with
    | mk outcome roster =>
      rw [hInstall] at h
      refine .inl ⟨member, keepData, hAction, ?_⟩
      cases outcome with
      | aborted => cases h
      | passed =>
        cases h
        rw [hInstall]
      | failed problem =>
        cases h
        rw [hInstall]
  · rename_i target hAction
    cases h
    exact .inr (.inl ⟨target, hAction, rfl⟩)
  · cases h
    exact .inr (.inr rfl)

/-! ## Forward -/

/-- No target is farther back than it was. -/
def Forward (st fin : State E R) : Prop :=
  ∀ name, (st.roster.statusOf name).rank ≤ (fin.roster.statusOf name).rank

theorem Forward.refl (st : State E R) : Forward st st := fun _ => Nat.le_refl _

theorem Forward.trans {st mid fin : State E R} (h : Forward st mid) (h' : Forward mid fin) : Forward st fin :=
  fun name => Nat.le_trans (h name) (h' name)

theorem rank_le_retired (status : MemberStatus) : status.rank ≤ MemberStatus.retired.rank := by
  cases status <;> decide

theorem forward_route {st fin : State E R} {step : Step} {activation : Answer R} {runner : String}
    (h : route cfg st step activation = .runs runner fin) : Forward st fin := by
  obtain ⟨rfl, -⟩ | ⟨target, -, -, -, ⟨rfl, -⟩ | ⟨-, -, hStatus, runtime, rfl⟩⟩ := route_runs h
  · exact .refl _
  · exact .refl _
  · intro name
    rw [statusOf_bringUp]
    split
    · rename_i hName
      rw [hName, hStatus]
      decide
    · exact Nat.le_refl _

theorem statusOf_installMember (roster : TargetRoster E R) (member name : String) (answer : Answer (List String)) :
    (roster.installMember member answer).2.statusOf name = roster.statusOf name ∨
      roster.statusOf member = .notInstalled ∧ name = member ∧
        (roster.installMember member answer).2.statusOf name = .installed ∨
      ∃ others, answer = .returned others ∧ name ∈ others ∧ name ≠ member ∧
        (roster.installMember member answer).2.statusOf name = .retired := by
  obtain ⟨others, hStatus, rfl, hInstall⟩ | ⟨-, hSame⟩ := roster.installMember_cases member answer
  · rw [hInstall]
    by_cases hName : name = member
    · subst hName
      exact .inr (.inl ⟨hStatus, rfl, TargetRoster.statusOf_mark_self name .installed⟩)
    · dsimp only
      rw [TargetRoster.statusOf_mark_ne hName, TargetRoster.statusOf_retireAll]
      split
      · rename_i hOther
        exact .inr (.inr ⟨others, rfl, hOther.1, hName, rfl⟩)
      · exact .inl rfl
  · rw [hSame]
    exact .inl rfl

theorem forward_perform {st fin : State E R} {runner : String} {step : Step} {installation : Answer (List String)}
    (h : perform cfg st runner step installation = some fin) : Forward st fin := by
  intro name
  obtain ⟨member, _, -, rfl⟩ | ⟨target, -, rfl⟩ | rfl := perform_cases h
  · obtain hSame | ⟨hStatus, rfl, -⟩ | ⟨_, -, -, -, hRetired⟩ :=
      statusOf_installMember st.roster member name installation
    · exact (congrArg MemberStatus.rank hSame).ge
    · rw [hStatus]
      exact Nat.zero_le _
    · dsimp only
      rw [hRetired]
      exact rank_le_retired _
  · obtain ⟨-, hMove⟩ | ⟨-, hSame⟩ := st.roster.movePrimary_cases target
    · rw [hMove]
      exact Nat.le_refl _
    · rw [hSame]
  · exact Nat.le_refl _

theorem forward_next {st fin : State E R} {label : Label R} (h : next cfg st label = some fin) : Forward st fin := by
  cases label with
  | begin step activation installation =>
    rw [next] at h
    split at h
    · cases h
      exact .refl _
    · cases h
    · rename_i runner mid hRoute
      exact (forward_route hRoute).trans (forward_perform h)
  | poll =>
    rw [next] at h
    split at h
    · cases h
    · cases h
      exact .refl _
  | finish =>
    rw [next] at h
    split at h
    · cases h
    · cases h
      exact .refl _
  | nextPhase =>
    rw [next] at h
    split at h
    · cases h
      exact .refl _
    · cases h

theorem forward_reaches {st fin : State E R} (h : Reaches (next cfg) st fin) : Forward st fin := by
  induction h with
  | refl => exact .refl _
  | tail _ _ hStep ih => exact ih.trans (forward_next hStep)

/-! ## What a run keeps -/

structure Kept (cfg : Config E R) (st : State E R) : Prop where
  routable : ∀ name, name ∈ cfg.started.map Prod.fst ∨ name ∈ st.roster.runtimes.map Prod.fst → name ∈ st.byTarget
  up : ∀ name ∈ st.byTarget, MemberStatus.running.rank ≤ (st.roster.statusOf name).rank
  brought : ∀ name ∈ cfg.later, st.roster.statusOf name = .running → name ∈ st.roster.runtimes.map Prod.fst
  polled : ∀ frame ∈ st.frames, frame.polled = [] ∨
    MemberStatus.running.rank ≤ (st.roster.statusOf frame.runner).rank ∧
      frame.polled = cfg.pinned frame.runner ++ st.roster.watched st.roster.primary frame.runner

theorem statusOf_start (name : String) :
    (State.start cfg).roster.statusOf name = if name ∈ cfg.later then .notInstalled else .running := by
  have hGet (names : List String) : get (names.map fun name => (name, MemberStatus.notInstalled)) name =
      if name ∈ names then some .notInstalled else none := by
    induction names with
    | nil => rfl
    | cons first names ih =>
      rw [List.map_cons, get_cons, ih]
      by_cases hName : first = name
      · simp [hName]
      · simp [hName, Ne.symm hName]
  rw [TargetRoster.statusOf, State.start]
  dsimp only
  rw [hGet]
  split <;> rfl

theorem Kept.start : Kept cfg (State.start cfg) where
  routable name h := h.resolve_right (by simp [State.start])
  up name hMem := by
    rw [statusOf_start, if_neg fun hLater => cfg.later_apart name hLater hMem]
  brought name hLater hStatus := by
    rw [statusOf_start, if_pos hLater] at hStatus
    cases hStatus
  polled frame hMem := by cases hMem

theorem Kept.bringUp {st : State E R} (h : Kept cfg st) {target : String}
    (hStatus : st.roster.statusOf target = .installed) (runtime : R) : Kept cfg (st.bringUp target runtime) := by
  have hKeys (name : String) : name ∈ (st.bringUp target runtime).roster.runtimes.map Prod.fst ↔
      name ∈ st.roster.runtimes.map Prod.fst ∨ name = target := by
    change name ∈ (PyValue.set st.roster.runtimes target runtime).map Prod.fst ↔ _
    rw [map_fst_set]
    split
    · rename_i hMem
      constructor
      · exact .inl
      · rintro (hName | rfl)
        · exact hName
        · exact hMem
    · rw [List.mem_append, List.mem_singleton]
  have hForward : Forward st (st.bringUp target runtime) := by
    intro name
    rw [statusOf_bringUp]
    split
    · rename_i hName
      rw [hName, hStatus]
      decide
    · exact Nat.le_refl _
  constructor
  · intro name hName
    apply List.mem_append.mpr
    obtain hName | hName := hName
    · exact .inl (h.routable name (.inl hName))
    · obtain hName | rfl := (hKeys name).mp hName
      · exact .inl (h.routable name (.inr hName))
      · exact .inr List.mem_cons_self
  · intro name hName
    obtain hName | hName := List.mem_append.mp hName
    · exact Nat.le_trans (h.up name hName) (hForward name)
    · rw [List.mem_singleton.mp hName, statusOf_bringUp, if_pos rfl]
  · intro name hLater hRunning
    apply (hKeys name).mpr
    rw [statusOf_bringUp] at hRunning
    split at hRunning
    · rename_i hName
      exact .inr hName
    · exact .inl (h.brought name hLater hRunning)
  · intro frame hFrame
    obtain hNone | ⟨hUp, hPolled⟩ := h.polled frame hFrame
    · exact .inl hNone
    · exact .inr ⟨Nat.le_trans hUp (hForward frame.runner), hPolled⟩

theorem Kept.route {st fin : State E R} (h : Kept cfg st) {step : Step} {activation : Answer R} {runner : String}
    (hRoute : route cfg st step activation = .runs runner fin) : Kept cfg fin ∧ fin.frames = st.frames := by
  obtain ⟨rfl, -⟩ | ⟨target, -, -, -, ⟨rfl, -⟩ | ⟨-, -, hStatus, runtime, rfl⟩⟩ := route_runs hRoute
  · exact ⟨h, rfl⟩
  · exact ⟨h, rfl⟩
  · exact ⟨h.bringUp hStatus runtime, rfl⟩

theorem installMember_frame (roster : TargetRoster E R) (member : String) (answer : Answer (List String)) :
    (roster.installMember member answer).2.primary = roster.primary ∧
      (roster.installMember member answer).2.entries = roster.entries ∧
      (roster.installMember member answer).2.runtimes = roster.runtimes := by
  obtain ⟨others, -, -, hInstall⟩ | ⟨-, hSame⟩ := roster.installMember_cases member answer
  · rw [hInstall]
    exact TargetRoster.retireAll_frame others
  · rw [hSame]
    exact ⟨rfl, rfl, rfl⟩

theorem Kept.installMember {st : State E R} (h : Kept cfg st) (member : String) (answer : Answer (List String)) :
    Kept cfg { st with roster := (st.roster.installMember member answer).2 } := by
  obtain ⟨hPrimary, hEntries, hRuntimes⟩ := installMember_frame st.roster member answer
  have hForward (name : String) :
      (st.roster.statusOf name).rank ≤ ((st.roster.installMember member answer).2.statusOf name).rank := by
    obtain hSame | ⟨hStatus, rfl, -⟩ | ⟨_, -, -, -, hRetired⟩ :=
      statusOf_installMember st.roster member name answer
    · exact (congrArg MemberStatus.rank hSame).ge
    · rw [hStatus]
      exact Nat.zero_le _
    · rw [hRetired]
      exact rank_le_retired _
  constructor
  · intro name hName
    dsimp only at hName
    rw [hRuntimes] at hName
    exact h.routable name hName
  · exact fun name hName => Nat.le_trans (h.up name hName) (hForward name)
  · intro name hLater hRunning
    dsimp only at hRunning ⊢
    rw [hRuntimes]
    apply h.brought name hLater
    obtain hSame | ⟨-, -, hInstalled⟩ | ⟨_, -, -, -, hRetired⟩ :=
      statusOf_installMember st.roster member name answer
    · rw [← hSame, hRunning]
    · rw [hInstalled] at hRunning
      cases hRunning
    · rw [hRetired] at hRunning
      cases hRunning
  · intro frame hFrame
    obtain hNone | ⟨hUp, hPolled⟩ := h.polled frame hFrame
    · exact .inl hNone
    · refine .inr ⟨Nat.le_trans hUp (hForward frame.runner), ?_⟩
      rw [hPolled, TargetRoster.watched, TargetRoster.watched, hPrimary, hEntries]

theorem Kept.begun {st : State E R} (h : Kept cfg st) (runner : String) :
    Kept cfg { st with frames := ⟨runner, st.roster.interruptsFor runner (cfg.pinned runner)⟩ :: st.frames } := by
  refine ⟨h.routable, h.up, h.brought, fun frame hFrame => ?_⟩
  obtain rfl | hFrame := List.mem_cons.mp hFrame
  · dsimp only
    rw [TargetRoster.interruptsFor, TargetRoster.polls]
    by_cases hRunning : st.roster.statusOf runner = .running
    · rw [if_pos (decide_eq_true hRunning), hRunning]
      exact .inr ⟨Nat.le_refl _, rfl⟩
    · rw [if_neg (by simpa using hRunning)]
      exact .inl rfl
  · exact h.polled frame hFrame

theorem Kept.movePrimary {st : State E R} (h : Kept cfg st) (hTop : st.frames = []) (target : String) :
    Kept cfg { st with roster := (st.roster.movePrimary target).2 } := by
  obtain ⟨-, hMove⟩ | ⟨-, hSame⟩ := st.roster.movePrimary_cases target
  · rw [hMove]
    refine ⟨h.routable, h.up, h.brought, fun frame hFrame => ?_⟩
    rw [hTop] at hFrame
    cases hFrame
  · rw [hSame]
    exact h

theorem Kept.next {st fin : State E R} (h : Kept cfg st) {label : Label R} (hLoaded : label.Loaded st)
    (hNext : next cfg st label = some fin) : Kept cfg fin := by
  cases label with
  | begin step activation installation =>
    rw [Orchestrator.next] at hNext
    split at hNext
    · cases hNext
      exact h
    · cases hNext
    · rename_i runner mid hRoute
      obtain ⟨hMid, hFrames⟩ := h.route hRoute
      obtain ⟨member, _, -, rfl⟩ | ⟨target, hAction, rfl⟩ | rfl := perform_cases hNext
      · exact hMid.installMember member installation
      · obtain ⟨action, resolved⟩ := step
        subst hAction
        exact hMid.movePrimary (hFrames.trans hLoaded) target
      · exact hMid.begun runner
  | poll =>
    rw [Orchestrator.next] at hNext
    split at hNext
    · cases hNext
    · cases hNext
      exact h
  | finish =>
    rw [Orchestrator.next] at hNext
    split at hNext
    · cases hNext
    · rename_i frame frames hFrames
      cases hNext
      refine ⟨h.routable, h.up, h.brought, fun frame' hFrame => h.polled frame' ?_⟩
      rw [hFrames]
      exact List.mem_cons_of_mem _ hFrame
  | nextPhase =>
    rw [Orchestrator.next] at hNext
    split at hNext
    · cases hNext
      refine ⟨fun name hName => (mem_keys_live _ _ name).mpr hName, fun name hName => ?_, h.brought, h.polled⟩
      exact h.up name (h.routable name ((mem_keys_live _ _ name).mp hName))
    · cases hNext

/-! ## One build of an app at a time -/

/-- Of two later members whose apps replace each other, one at most is on the device. -/
def Alone (cfg : Config E R) (shares : String → String → Prop) (st : State E R) : Prop :=
  ∀ a ∈ cfg.later, ∀ b ∈ cfg.later, a ≠ b → shares a b →
    (st.roster.statusOf a).active = true → (st.roster.statusOf b).active = false

theorem Alone.start (shares : String → String → Prop) : Alone cfg shares (State.start cfg) := by
  intro a hA b hB hNe hShares hActive
  rw [statusOf_start, if_pos hA] at hActive
  cases hActive

theorem Alone.of_active {shares : String → String → Prop} {st fin : State E R} (h : Alone cfg shares st)
    (hActive : ∀ name, (fin.roster.statusOf name).active = true → (st.roster.statusOf name).active = true) :
    Alone cfg shares fin := by
  intro a hA b hB hNe hShares hA'
  have hBefore := h a hA b hB hNe hShares (hActive a hA')
  by_contra hB'
  rw [hActive b (by simpa using hB')] at hBefore
  cases hBefore

theorem Alone.route {shares : String → String → Prop} {st fin : State E R} (h : Alone cfg shares st) {step : Step}
    {activation : Answer R} {runner : String} (hRoute : Orchestrator.route cfg st step activation = .runs runner fin) :
    Alone cfg shares fin := by
  obtain ⟨rfl, -⟩ | ⟨target, -, -, -, ⟨rfl, -⟩ | ⟨-, -, hStatus, runtime, rfl⟩⟩ := route_runs hRoute
  · exact h
  · exact h
  · apply h.of_active
    intro name hName
    rw [statusOf_bringUp] at hName
    split at hName
    · rename_i hTarget
      rw [hTarget, hStatus]
      rfl
    · exact hName

theorem Alone.installMember {shares : String → String → Prop} (hShares : ∀ a b, shares a b → shares b a)
    {st : State E R} (h : Alone cfg shares st) {member : String} {answer : Answer (List String)}
    (hReports : ∀ others, answer = .returned others → ∀ other, shares member other → other ∈ others) :
    Alone cfg shares { st with roster := (st.roster.installMember member answer).2 } := by
  obtain ⟨others, hStatus, rfl, hInstall⟩ | ⟨-, hSame⟩ := st.roster.installMember_cases member answer
  · have hAfter (name : String) : (st.roster.installMember member (.returned others)).2.statusOf name =
        if name = member then .installed
        else if name ∈ others ∧ st.roster.statusOf name ≠ .notInstalled then .retired
        else st.roster.statusOf name := by
      rw [hInstall]
      dsimp only
      split
      · rename_i hName
        rw [hName, TargetRoster.statusOf_mark_self]
      · rename_i hName
        rw [TargetRoster.statusOf_mark_ne hName, TargetRoster.statusOf_retireAll]
    -- Another member is active only if it was, and not if it shares the new one's identifier.
    have hOther (name : String) (hName : name ≠ member)
        (hActive : ((st.roster.installMember member (.returned others)).2.statusOf name).active = true) :
        (st.roster.statusOf name).active = true ∧ ¬shares member name := by
      rw [hAfter, if_neg hName] at hActive
      split at hActive
      · cases hActive
      · rename_i hNot
        refine ⟨hActive, fun hShare => hNot ⟨hReports others rfl name hShare, fun hNone => ?_⟩⟩
        rw [hNone] at hActive
        cases hActive
    intro a hA b hB hNe hShare hActive
    by_contra hB'
    have hActive' := by simpa using hB'
    by_cases hMember : a = member
    · subst hMember
      exact (hOther b hNe.symm hActive').2 hShare
    · obtain ⟨hWas, hApart⟩ := hOther a hMember hActive
      by_cases hMember' : b = member
      · subst hMember'
        exact hApart (hShares a b hShare)
      · have hBefore := h a hA b hB hNe hShare hWas
        rw [(hOther b hMember' hActive').1] at hBefore
        cases hBefore
  · rw [hSame]
    exact h

theorem Alone.next {shares : String → String → Prop} (hShares : ∀ a b, shares a b → shares b a)
    {st fin : State E R} (h : Alone cfg shares st) {label : Label R} (hReports : label.Reports shares)
    (hNext : Orchestrator.next cfg st label = some fin) : Alone cfg shares fin := by
  cases label with
  | begin step activation installation =>
    rw [Orchestrator.next] at hNext
    split at hNext
    · cases hNext
      exact h
    · cases hNext
    · rename_i runner mid hRoute
      have hMid := h.route hRoute
      obtain ⟨member, _, hAction, rfl⟩ | ⟨target, -, rfl⟩ | rfl := perform_cases hNext
      · apply hMid.installMember hShares
        rintro others rfl
        obtain ⟨action, resolved⟩ := step
        subst hAction
        exact hReports
      · apply hMid.of_active
        intro name hName
        obtain ⟨-, hMove⟩ | ⟨-, hSame⟩ := mid.roster.movePrimary_cases target
        · rw [hMove] at hName
          exact hName
        · rw [hSame] at hName
          exact hName
      · exact hMid
  | poll =>
    rw [Orchestrator.next] at hNext
    split at hNext
    · cases hNext
    · cases hNext
      exact h
  | finish =>
    rw [Orchestrator.next] at hNext
    split at hNext
    · cases hNext
    · cases hNext
      exact h
  | nextPhase =>
    rw [Orchestrator.next] at hNext
    split at hNext
    · cases hNext
      exact h
    · cases hNext

/-! ## The roster of a run -/

/-- The member that a step installs, if it succeeds. -/
def installs (cfg : Config E R) (st : State E R) : Label R → Option String
  | .begin step activation installation =>
    match route cfg st step activation, step.action with
    | .runs _ mid, .installApp member _ =>
      match (mid.roster.installMember member installation).1 with
      | .passed => some member
      | _ => none
    | _, _ => none
  | _ => none

/-- A successful install takes its member from not installed to installed. -/
theorem installs_cases {st fin : State E R} {label : Label R} {member : String}
    (hNext : next cfg st label = some fin) (h : installs cfg st label = some member) :
    st.roster.statusOf member = .notInstalled ∧ fin.roster.statusOf member = .installed := by
  cases label with
  | begin step activation installation =>
    rw [installs] at h
    rw [next] at hNext
    cases hRoute : route cfg st step activation with
    | refused problem =>
      rw [hRoute] at h
      cases h
    | aborted =>
      rw [hRoute] at h
      cases h
    | runs runner mid =>
      rw [hRoute] at h hNext
      dsimp only at h hNext
      split at h
      · rename_i runner' mid' member' keepData hRuns hAction
        cases hRuns
        split at h
        · rename_i hPassed
          cases h
          rw [perform, hAction] at hNext
          dsimp only at hNext
          obtain ⟨others, hStatus, -, hInstall⟩ | ⟨hFailed, -⟩ := mid.roster.installMember_cases member installation
          · rw [hInstall] at hNext
            cases hNext
            refine ⟨?_, TargetRoster.statusOf_mark_self member .installed⟩
            have hForward := forward_route hRoute member
            rw [hStatus] at hForward
            cases hBefore : st.roster.statusOf member with
            | notInstalled => rfl
            | _ =>
              rw [hBefore] at hForward
              exact absurd hForward (by decide)
          · exact absurd hPassed hFailed
        · cases h
      · cases h
  | poll => cases h
  | finish => cases h
  | nextPhase => cases h

/-- What holds of a state of a run, and of what any step does there. -/
structure Safe (cfg : Config E R) (shares : String → String → Prop) (st : State E R) : Prop where
  /-- A status only moves forward. -/
  forward : ∀ label fin, next cfg st label = some fin → Forward st fin
  /-- A step that resolves a target, and does not only pick its device, is on that target's runner, and the
  target is running. -/
  running : ∀ step activation runner fin target, route cfg st step activation = .runs runner fin →
    step.resolvedTarget = some target → step.action.isInstallApp = false →
    runner = target ∧ fin.roster.statusOf target = .running
  once : ∀ label fin member, next cfg st label = some fin → installs cfg st label = some member →
    ∀ later label' fin', Reaches (next cfg) fin later → next cfg later label' = some fin' →
      installs cfg later label' ≠ some member
  alone : Alone cfg shares st
  /-- A step polls nothing unless its target is running when it starts. -/
  polls : ∀ label fin frame, next cfg st label = some fin → fin.frames = frame :: st.frames →
    frame.polled ≠ [] → fin.roster.statusOf frame.runner = .running
  /-- An entry without a target is polled by the current primary alone. -/
  watches : ∀ frame ∈ st.frames, frame.polled = [] ∨
    frame.polled = cfg.pinned frame.runner ++ st.roster.watched st.roster.primary frame.runner
  routable : ∀ name, name ∈ cfg.started.map Prod.fst ∨ name ∈ cfg.later → st.roster.statusOf name = .running →
    ∀ step activation, step.resolvedTarget = some name → route cfg st step activation = .runs name st
  primary : ∀ label fin, next cfg st label = some fin → fin.roster.primary ≠ st.roster.primary →
    st.roster.statusOf fin.roster.primary ≠ .retired

theorem Kept.running {st fin : State E R} (h : Kept cfg st) {step : Step} {activation : Answer R}
    {runner target : String} (hRoute : Orchestrator.route cfg st step activation = .runs runner fin)
    (hTarget : step.resolvedTarget = some target) (hInstall : step.action.isInstallApp = false) :
    runner = target ∧ fin.roster.statusOf target = .running := by
  obtain ⟨-, -, hNone | hInstalls⟩ | ⟨target', hTarget', rfl, hAvailable, hWhere⟩ := route_runs hRoute
  · rw [hNone] at hTarget
    cases hTarget
  · rw [hInstalls] at hInstall
    cases hInstall
  · have hSame : runner = target := Option.some.inj (hTarget'.symm.trans hTarget)
    subst hSame
    refine ⟨rfl, ?_⟩
    obtain ⟨rfl, hMem⟩ | ⟨-, -, -, runtime, rfl⟩ := hWhere
    · obtain hRunning | ⟨hStatus, -⟩ := TargetRoster.unavailable_none hInstall hAvailable
      · exact hRunning
      · have hUp := h.up runner hMem
        rw [hStatus] at hUp
        exact absurd hUp (by decide)
    · rw [statusOf_bringUp, if_pos rfl]

theorem Kept.routes {st : State E R} (h : Kept cfg st) {name : String}
    (hKnown : name ∈ cfg.started.map Prod.fst ∨ name ∈ cfg.later) (hRunning : st.roster.statusOf name = .running)
    {step : Step} (hTarget : step.resolvedTarget = some name) (activation : Answer R) :
    Orchestrator.route cfg st step activation = .runs name st := by
  have hMem : name ∈ st.byTarget := by
    obtain hStarted | hLater := hKnown
    · exact h.routable name (.inl hStarted)
    · exact h.routable name (.inr (h.brought name hLater hRunning))
  have hAvailable : st.roster.unavailable name step.action = none := by
    rw [TargetRoster.unavailable, if_pos (.inl hRunning)]
  rw [Orchestrator.route, hTarget]
  dsimp only
  rw [hAvailable]
  exact if_pos hMem

theorem polls_running {st fin : State E R} {label : Label R} {frame : Frame E}
    (hNext : next cfg st label = some fin) (hFrames : fin.frames = frame :: st.frames) (hPolled : frame.polled ≠ []) :
    fin.roster.statusOf frame.runner = .running := by
  have hNone : st.frames ≠ frame :: st.frames := fun h => by simpa using congrArg List.length h
  cases label with
  | begin step activation installation =>
    rw [next] at hNext
    split at hNext
    · cases hNext
      exact absurd hFrames hNone
    · cases hNext
    · rename_i runner mid hRoute
      have hMid : mid.frames = st.frames := by
        obtain ⟨rfl, -⟩ | ⟨target, -, -, -, ⟨rfl, -⟩ | ⟨-, -, -, runtime, rfl⟩⟩ := route_runs hRoute
        · rfl
        · rfl
        · rfl
      obtain ⟨member, _, -, rfl⟩ | ⟨target, -, rfl⟩ | rfl := perform_cases hNext
      · exact absurd (hMid.symm.trans hFrames) hNone
      · exact absurd (hMid.symm.trans hFrames) hNone
      · obtain ⟨rfl, -⟩ := List.cons.inj hFrames
        dsimp only at hPolled ⊢
        by_contra hStatus
        rw [TargetRoster.interruptsFor, TargetRoster.polls, if_neg (by simpa using hStatus)] at hPolled
        exact hPolled rfl
  | poll =>
    rw [next] at hNext
    split at hNext
    · cases hNext
    · cases hNext
      exact absurd hFrames hNone
  | finish =>
    rw [next] at hNext
    split at hNext
    · cases hNext
    · rename_i first frames hFirst
      cases hNext
      have hLength := congrArg List.length hFrames
      rw [hFirst] at hLength
      simp only [List.length_cons] at hLength
      omega
  | nextPhase =>
    rw [next] at hNext
    split at hNext
    · cases hNext
      exact absurd hFrames hNone
    · cases hNext

theorem primary_moves {st fin : State E R} {label : Label R} (hNext : next cfg st label = some fin)
    (hMoved : fin.roster.primary ≠ st.roster.primary) : st.roster.statusOf fin.roster.primary ≠ .retired := by
  cases label with
  | begin step activation installation =>
    rw [next] at hNext
    split at hNext
    · cases hNext
      exact absurd rfl hMoved
    · cases hNext
    · rename_i runner mid hRoute
      have hMid : mid.roster.primary = st.roster.primary := by
        obtain ⟨rfl, -⟩ | ⟨target, -, -, -, ⟨rfl, -⟩ | ⟨-, -, -, runtime, rfl⟩⟩ := route_runs hRoute
        · rfl
        · rfl
        · rfl
      obtain ⟨member, _, -, rfl⟩ | ⟨target, -, rfl⟩ | rfl := perform_cases hNext
      · exact absurd ((installMember_frame mid.roster member installation).1.trans hMid) hMoved
      · obtain ⟨hStatus, hMove⟩ | ⟨-, hSame⟩ := mid.roster.movePrimary_cases target
        · rw [hMove]
          dsimp only [TargetRoster.setPrimary]
          intro hRetired
          have hForward := forward_route hRoute target
          rw [hRetired] at hForward
          apply hStatus
          cases hAfter : mid.roster.statusOf target with
          | retired => rfl
          | _ =>
            rw [hAfter] at hForward
            exact absurd hForward (by decide)
        · rw [hSame] at hMoved
          exact absurd hMid hMoved
      · exact absurd hMid hMoved
  | poll =>
    rw [next] at hNext
    split at hNext
    · cases hNext
    · cases hNext
      exact absurd rfl hMoved
  | finish =>
    rw [next] at hNext
    split at hNext
    · cases hNext
    · cases hNext
      exact absurd rfl hMoved
  | nextPhase =>
    rw [next] at hNext
    split at hNext
    · cases hNext
      exact absurd rfl hMoved
    · cases hNext

/-- Whatever the steps are, and wherever an installation or an activation fails. -/
theorem roster_safe {shares : String → String → Prop} (hShares : ∀ a b, shares a b → shares b a) {st : State E R}
    (hReach : ReachesWhile (next cfg) (fun st label => label.Loaded st ∧ label.Reports shares) (State.start cfg) st) :
    Safe cfg shares st := by
  have hKept : Kept cfg st ∧ Alone cfg shares st := by
    apply hReach.keeps _ ⟨Kept.start, Alone.start shares⟩
    rintro mid fin label ⟨hKept, hAlone⟩ ⟨hLoaded, hReports⟩ hNext
    exact ⟨hKept.next hLoaded hNext, hAlone.next hShares hReports hNext⟩
  obtain ⟨hKept, hAlone⟩ := hKept
  refine
    { forward := fun label fin hNext => forward_next hNext
      running := fun step activation runner fin target hRoute hTarget hInstall =>
        hKept.running hRoute hTarget hInstall
      once := ?_
      alone := hAlone
      polls := fun label fin frame hNext hFrames hPolled => polls_running hNext hFrames hPolled
      watches := ?_
      routable := fun name hKnown hRunning step activation hTarget => hKept.routes hKnown hRunning hTarget activation
      primary := fun label fin hNext hMoved => primary_moves hNext hMoved }
  · intro label fin member hNext hInstalls later label' fin' hLater hNext' hInstalls'
    have hForward := forward_reaches hLater member
    rw [(installs_cases hNext hInstalls).2, (installs_cases hNext' hInstalls').1] at hForward
    exact absurd hForward (by decide)
  · intro frame hFrame
    exact (hKept.polled frame hFrame).imp_right fun h => h.2

/-! ## A shop and two builds that replace it -/

def shop : Config Unit Unit where
  started := [("shop", ())]
  primaryTarget := "shop"
  later := ["admin", "staff"]
  screens := []
  pinned _ := []
  primary_started := by decide
  later_apart := by decide

/-- All three builds have one identifier. -/
def oneIdentifier (a b : String) : Prop := a ≠ b ∧ a ∈ ["shop", "admin", "staff"] ∧ b ∈ ["shop", "admin", "staff"]

/-- `installApp: { from: admin }` on the shop's device, which reports both other builds. -/
def installAdmin : Label Unit :=
  .begin ⟨.installApp "admin" false, some "shop"⟩ .unwired (.returned ["shop", "staff"])

def adminInstalled : State Unit Unit where
  roster := ⟨"shop", [], [("admin", .installed), ("staff", .notInstalled), ("shop", .retired)], []⟩
  byTarget := ["shop"]
  frames := []

theorem next_installAdmin : next shop (State.start shop) installAdmin = some adminInstalled := by rfl

theorem loaded_installAdmin : installAdmin.Loaded (State.start shop) := trivial

theorem reports_installAdmin : installAdmin.Reports oneIdentifier := by
  rintro other ⟨hNe, -, hMem⟩
  simp only [List.mem_cons, List.not_mem_nil, or_false] at hMem ⊢
  obtain rfl | rfl | rfl := hMem
  · exact .inl rfl
  · exact absurd rfl hNe
  · exact .inr rfl

theorem roster_safe_shop : Safe shop oneIdentifier adminInstalled := by
  apply roster_safe
  · rintro a b ⟨hNe, hA, hB⟩
    exact ⟨hNe.symm, hB, hA⟩
  · exact (ReachesWhile.refl _).tail ⟨loaded_installAdmin, reports_installAdmin⟩ next_installAdmin

/-- The shop is retired, and an `installApp` step that it picks the device for is still on its runner. -/
theorem installApp_on_retired :
    ¬∀ (cfg : Config Unit Unit) (st : State Unit Unit),
      ReachesWhile (next cfg) (fun st label => label.Loaded st) (State.start cfg) st →
      ∀ step activation runner fin, route cfg st step activation = .runs runner fin →
        fin.roster.statusOf runner = .running := by
  intro hAll
  have hReach : ReachesWhile (next shop) (fun st label => label.Loaded st) (State.start shop) adminInstalled :=
    (ReachesWhile.refl _).tail loaded_installAdmin next_installAdmin
  have hRunning := hAll shop adminInstalled hReach ⟨.installApp "staff" false, some "shop"⟩ .unwired "shop"
    adminInstalled rfl
  cases hRunning

end Bajutsu.Orchestrator
