import Bajutsu.Serve.JobCancel

/-!
# No stop is lost

A child that is started while the job is cancelled is stopped as it is registered, and a call that cancels sees every
child that was registered before. A hard kill that was latched ends the next child the same way. One that found a
build running and was not latched is lost when the build exits with 0 all the same.
-/

namespace Bajutsu.Serve.JobCancel

open Transition

variable {settings : Settings} {shared shared' : Shared} {st mid fin : System} {run run' : RunPlace}
  {place place' : Place} {child c : Nat} {hard input : Bool}

/-! ## The children -/

section Children

variable (shared) (child c)

@[simp] theorem exitOf_signal (s : Signal) : (shared.signal child s).exitOf c = shared.exitOf c := by
  simp only [Shared.exitOf, Shared.signal, List.getElem?_modify]
  split <;> cases shared.children[c]? <;> rfl

@[simp] theorem length_signal (s : Signal) : (shared.signal child s).children.length = shared.children.length :=
  List.length_modify _ _ _

theorem signalsOf_signal (s : Signal) :
    (shared.signal child s).signalsOf c =
      if child = c ∧ c < shared.children.length then shared.signalsOf c ++ [s] else shared.signalsOf c := by
  simp only [Shared.signalsOf, Shared.signal, List.getElem?_modify]
  rcases Nat.lt_or_ge c shared.children.length with hLess | hMore
  · rw [List.getElem?_eq_getElem hLess]
    split <;> simp_all
  · rw [List.getElem?_eq_none hMore]
    simp [Nat.not_lt.mpr hMore]

theorem running_iff : shared.running c = true ↔ c < shared.children.length ∧ shared.exitOf c = none := by
  rw [Shared.running, Shared.exitOf]
  rcases Nat.lt_or_ge c shared.children.length with hLess | hMore
  · rw [List.getElem?_eq_getElem hLess]
    simp [hLess]
  · rw [List.getElem?_eq_none hMore]
    simp [Nat.not_lt.mpr hMore]

@[simp] theorem running_signal (s : Signal) : (shared.signal child s).running c = shared.running c := by
  rw [Bool.eq_iff_iff, running_iff, running_iff, exitOf_signal, length_signal]

theorem running_exited (code : Int) :
    (shared.exited child code).running c = (shared.running c && decide (child ≠ c)) := by
  simp only [Shared.running, Shared.exited, List.getElem?_modify]
  cases shared.children[c]? with
  | none => simp
  | some value => by_cases hSame : child = c <;> simp [hSame]

theorem exitOf_exited (code : Int) (h : child ≠ c) : (shared.exited child code).exitOf c = shared.exitOf c := by
  simp only [Shared.exitOf, Shared.exited, List.getElem?_modify, if_neg h]
  cases shared.children[c]? <;> rfl

theorem exitOf_exited_self (code : Int) (h : shared.running child = true) :
    (shared.exited child code).exitOf child = some code := by
  have hLess := ((running_iff shared child).mp h).1
  simp [Shared.exitOf, Shared.exited, hLess]

@[simp] theorem signalsOf_exited (code : Int) : (shared.exited child code).signalsOf c = shared.signalsOf c := by
  simp only [Shared.signalsOf, Shared.exited, List.getElem?_modify]
  split <;> cases shared.children[c]? <;> rfl

@[simp] theorem length_exited (code : Int) : (shared.exited child code).children.length = shared.children.length :=
  List.length_modify _ _ _

@[simp] theorem length_popen : shared.popen.children.length = shared.children.length + 1 := List.length_append

theorem running_popen : shared.popen.running c = (shared.running c || decide (c = shared.children.length)) := by
  rw [Shared.running, Shared.running, Shared.popen, List.getElem?_append]
  split
  · rename_i hLess
    simp [Nat.ne_of_lt hLess]
  · rename_i hMore
    rw [List.getElem?_eq_none (Nat.not_lt.mp hMore)]
    rcases Nat.eq_or_lt_of_le (Nat.not_lt.mp hMore) with rfl | hLess
    · simp
    · have hNone : ([⟨none, []⟩] : List Child)[c - shared.children.length]? = none :=
        List.getElem?_eq_none (by simp; omega)
      simp [hNone, Nat.ne_of_gt hLess]

theorem signalsOf_popen (h : c < shared.children.length) : shared.popen.signalsOf c = shared.signalsOf c := by
  rw [Shared.signalsOf, Shared.signalsOf, Shared.popen, List.getElem?_append_left h]

end Children

/-! ## What a step leaves -/

/-- What no step takes back. -/
structure Grows (shared shared' : Shared) : Prop where
  length : shared.children.length ≤ shared'.children.length
  signals : ∀ c, shared.signalsOf c ⊆ shared'.signalsOf c
  cancelled : shared.job.cancelled = true → shared'.job.cancelled = true
  killRequested : shared.job.killRequested = true → shared'.job.killRequested = true
  relayKill : shared.relay.killRequested = true → shared'.relay.killRequested = true

/-- What only the run thread changes. -/
structure Leaves (shared shared' : Shared) : Prop where
  length : shared'.children.length = shared.children.length
  exitOf : ∀ c, shared'.exitOf c = shared.exitOf c
  proc : shared'.job.proc = shared.job.proc
  done : shared'.job.done = shared.job.done
  exitCode : shared'.job.exitCode = shared.job.exitCode

theorem Leaves.running (h : Leaves shared shared') (c : Nat) : shared'.running c = shared.running c := by
  rw [Bool.eq_iff_iff, running_iff, running_iff, h.length, h.exitOf]

theorem Grows.refl (shared : Shared) : Grows shared shared :=
  ⟨Nat.le_refl _, fun _ _ h => h, id, id, id⟩

theorem Grows.signal (shared : Shared) (child : Nat) (s : Signal) : Grows shared (shared.signal child s) where
  length := Nat.le_of_eq (length_signal shared child s).symm
  signals c := by
    rw [signalsOf_signal]
    split
    · exact List.subset_append_left _ _
    · exact List.Subset.refl _
  cancelled := id
  killRequested := id
  relayKill := id

theorem Leaves.signal (shared : Shared) (child : Nat) (s : Signal) : Leaves shared (shared.signal child s) :=
  ⟨length_signal shared child s, fun c => exitOf_signal shared child c s, rfl, rfl, rfl⟩

/-- What a call does to the shared state, by where it stands. -/
inductive CallEffect (shared : Shared) : Place → Shared → Place → Prop where
  | late (h : shared.job.done = true) : CallEffect shared .flagging shared (.answered false)
  | alone (hProc : shared.job.proc = none) :
      CallEffect shared .flagging { shared with job := { shared.job with cancelled := true } } (.answered true)
  | graceful (child : Nat) (hProc : shared.job.proc = some child) :
      CallEffect shared .flagging { shared with job := { shared.job with cancelled := true } } (.asking child)
  | outright (child : Nat) (hProc : shared.job.proc = some child) :
      CallEffect shared .flagging { shared with job := { shared.job with cancelled := true } } (.terminating child)
  | asked (child : Nat) : CallEffect shared (.asking child) (shared.signal child .term) (.answered true)
  | unasked (child : Nat) : CallEffect shared (.asking child) shared (.terminating child)
  | terminated (child : Nat) : CallEffect shared (.terminating child) (shared.signal child .term) (.answered true)
  | boundHard (h : shared.relay.killRequested = true) :
      CallEffect shared .binding { shared with relay := { shared.relay with bound := true } }
        (.latching shared.relay.requested)
  | boundLate (h : shared.relay.requested = true) :
      CallEffect shared .binding { shared with relay := { shared.relay with bound := true } } .flagging
  | bound (h : shared.relay.requested = false) :
      CallEffect shared .binding { shared with relay := { shared.relay with bound := true } } .returned
  | latchedPending :
      CallEffect shared (.latching true) { shared with job := { shared.job with killRequested := true } } .flagging
  | latched :
      CallEffect shared (.latching false) { shared with job := { shared.job with killRequested := true } } .returned
  | again (h : shared.relay.requested = true) : CallEffect shared .requesting shared .returned
  | requested (h : shared.relay.requested = false) (hBound : shared.relay.bound = true) :
      CallEffect shared .requesting { shared with relay := { shared.relay with requested := true } } .flagging
  | requestedEarly (h : shared.relay.requested = false) (hBound : shared.relay.bound = false) :
      CallEffect shared .requesting { shared with relay := { shared.relay with requested := true } } .returned
  | killBound : CallEffect shared .killing shared .checking
  | killEarly (hBound : shared.relay.bound = false) :
      CallEffect shared .killing { shared with relay := { shared.relay with killRequested := true } } .returned
  | missed (h : ∀ child, shared.job.proc = some child → shared.running child = false) :
      CallEffect shared .checking { shared with job := { shared.job with killRequested := true } } .returned
  | hit (child : Nat) (hProc : shared.job.proc = some child) (hRunning : shared.running child = true) :
      CallEffect shared .checking shared (.shooting child)
  | shot (child : Nat) : CallEffect shared (.shooting child) (shared.signal child .kill) (.shot child)
  | overdue (child : Nat) : CallEffect shared (.polling child) shared (.ending child)
  | gone (child : Nat) : CallEffect shared (.polling child) shared .returned
  | ended (child : Nat) : CallEffect shared (.ending child) (shared.signal child .term) (.unwinding child)
  | stubborn (child : Nat) : CallEffect shared (.unwinding child) shared (.forcing child)
  | unwound (child : Nat) : CallEffect shared (.unwinding child) shared .returned
  | forced (child : Nat) : CallEffect shared (.forcing child) (shared.signal child .kill) .returned

theorem Place.step_effect {timers : List Call} (h : place.step shared input = some (shared', place', timers)) :
    CallEffect shared place shared' place' := by
  cases place with
  | flagging =>
    rw [Place.step] at h
    split at h
    · rename_i hDone
      cases h
      exact .late hDone
    · cases h
      cases hProc : shared.job.proc with
      | none => exact .alone hProc
      | some child =>
        dsimp only
        split
        · exact .graceful child hProc
        · exact .outright child hProc
  | asking child =>
    rw [Place.step] at h
    split at h <;> cases h
    · exact .asked child
    · exact .unasked child
  | terminating child =>
    cases h
    exact .terminated child
  | answered stopped => cases h
  | binding =>
    cases h
    split
    · rename_i hKill
      exact .boundHard hKill
    · split
      · rename_i hRequested
        exact .boundLate hRequested
      · rename_i hRequested
        exact .bound (by simpa using hRequested)
  | latching pending =>
    cases h
    cases pending
    · exact .latched
    · exact .latchedPending
  | requesting =>
    rw [Place.step] at h
    split at h
    · rename_i hRequested
      cases h
      exact .again hRequested
    · rename_i hRequested
      cases h
      split
      · rename_i hBound
        exact .requested (by simpa using hRequested) hBound
      · rename_i hBound
        exact .requestedEarly (by simpa using hRequested) (by simpa using hBound)
  | killing =>
    rw [Place.step] at h
    split at h
    · cases h
      exact .killBound
    · rename_i hBound
      cases h
      exact .killEarly (by simpa using hBound)
  | checking =>
    rw [Place.step] at h
    split at h
    · rename_i hNone
      cases h
      refine .missed fun child hProc => ?_
      simpa [hProc] using hNone
    · rename_i child hSome
      cases h
      obtain ⟨hProc, hRunning⟩ := Option.filter_eq_some_iff.mp hSome
      exact .hit child hProc hRunning
  | shooting child =>
    cases h
    exact .shot child
  | shot child => cases h
  | polling child =>
    cases h
    split
    · exact .overdue child
    · exact .gone child
  | ending child =>
    cases h
    exact .ended child
  | unwinding child =>
    cases h
    split
    · exact .stubborn child
    · exact .unwound child
  | forcing child =>
    cases h
    exact .forced child
  | returned => cases h

theorem Place.step_timers {timers : List Call} (h : place.step shared input = some (shared', place', timers)) :
    ∀ c ∈ timers, ∃ child, c = .escalate child := by
  cases place with
  | asking child =>
    rw [Place.step] at h
    split at h <;> cases h
    · intro c hMem
      exact ⟨child, List.mem_singleton.mp hMem⟩
    · nofun
  | flagging =>
    rw [Place.step] at h
    split at h <;> cases h <;> nofun
  | requesting =>
    rw [Place.step] at h
    split at h <;> cases h <;> nofun
  | killing =>
    rw [Place.step] at h
    split at h <;> cases h <;> nofun
  | checking =>
    rw [Place.step] at h
    split at h <;> cases h <;> nofun
  | answered stopped => cases h
  | shot child => cases h
  | returned => cases h
  | _ =>
    cases h
    nofun

theorem CallEffect.grows (h : CallEffect shared place shared' place') : Grows shared shared' := by
  cases h with
  | asked child => exact .signal _ _ _
  | terminated child => exact .signal _ _ _
  | shot child => exact .signal _ _ _
  | ended child => exact .signal _ _ _
  | forced child => exact .signal _ _ _
  | alone => exact ⟨Nat.le_refl _, fun _ _ h => h, fun _ => rfl, id, id⟩
  | graceful => exact ⟨Nat.le_refl _, fun _ _ h => h, fun _ => rfl, id, id⟩
  | outright => exact ⟨Nat.le_refl _, fun _ _ h => h, fun _ => rfl, id, id⟩
  | latched => exact ⟨Nat.le_refl _, fun _ _ h => h, id, fun _ => rfl, id⟩
  | latchedPending => exact ⟨Nat.le_refl _, fun _ _ h => h, id, fun _ => rfl, id⟩
  | missed => exact ⟨Nat.le_refl _, fun _ _ h => h, id, fun _ => rfl, id⟩
  | killEarly => exact ⟨Nat.le_refl _, fun _ _ h => h, id, id, fun _ => rfl⟩
  | _ => exact ⟨Nat.le_refl _, fun _ _ h => h, id, id, id⟩

theorem CallEffect.leaves (h : CallEffect shared place shared' place') : Leaves shared shared' := by
  cases h with
  | asked child => exact .signal _ _ _
  | terminated child => exact .signal _ _ _
  | shot child => exact .signal _ _ _
  | ended child => exact .signal _ _ _
  | forced child => exact .signal _ _ _
  | _ => exact ⟨rfl, fun _ => rfl, rfl, rfl, rfl⟩

/-- What the run thread does to the shared state, by where it stands. -/
inductive RunEffect (shared : Shared) : RunPlace → Shared → RunPlace → Prop where
  | bootFailed : RunEffect shared .booting shared (.failing 1)
  | booted (phase : Phase) : RunEffect shared .booting shared (.spawning phase)
  | spawned (phase : Phase) :
      RunEffect shared (.spawning phase) shared.popen (.registering phase shared.children.length)
  | buildFailed : RunEffect shared (.spawning .build) shared (.failing 1)
  | raised : RunEffect shared (.spawning .run) shared .raised
  | refused (phase : Phase) (child : Nat) (graceful : Bool)
      (h : (shared.job.cancelled || shared.job.killRequested) = true) :
      RunEffect shared (.registering phase child) (shared.registerProc child graceful).1
        (.stopping child shared.job.killRequested)
  | registered (phase : Phase) (child : Nat) (graceful : Bool)
      (h : (shared.job.cancelled || shared.job.killRequested) = false) :
      RunEffect shared (.registering phase child) (shared.registerProc child graceful).1 (.reading phase child)
  | stopped (child : Nat) (hard : Bool) :
      RunEffect shared (.stopping child hard) (shared.signal child (if hard then .kill else .term))
        (.reaping child)
  | reaped (child : Nat) (code : Int) (h : shared.exitOf child = some code) :
      RunEffect shared (.reaping child) shared (.refused (if code = 0 then 1 else code))
  | refusal (code : Int) : RunEffect shared (.refused code) (shared.finish code) .returned
  | ended (phase : Phase) (child : Nat) : RunEffect shared (.reading phase child) shared (.waiting phase child)
  | broke (phase : Phase) (child : Nat) :
      RunEffect shared (.reading phase child) shared (.breaking phase child)
  | broken (phase : Phase) (child : Nat) :
      RunEffect shared (.breaking phase child) (shared.signal child .term) (.waiting phase child)
  | built (child : Nat) (h : shared.exitOf child = some 0) :
      RunEffect shared (.waiting .build child) shared (.spawning .run)
  | unbuilt (child : Nat) (code : Int) (h : shared.exitOf child = some code) (hCode : code ≠ 0) :
      RunEffect shared (.waiting .build child) shared (.failing code)
  | ran (child : Nat) (code : Int) (h : shared.exitOf child = some code) :
      RunEffect shared (.waiting .run child) shared (.finishing child code)
  | failed (code : Int) : RunEffect shared (.failing code) (shared.fail code) .returned
  | finished (child : Nat) (code : Int) : RunEffect shared (.finishing child code) (shared.finish code) .returned
  | finishedSweeping (child : Nat) (code : Int) :
      RunEffect shared (.finishing child code) (shared.finish code) (.sweeping child)
  | swept (child : Nat) : RunEffect shared (.sweeping child) (shared.signal child .term) .returned

theorem registerProc_eq {graceful kill : Bool} (h : shared.registerProc child graceful = (shared', kill, hard)) :
    shared' = (shared.registerProc child graceful).1 ∧ (shared.job.cancelled || shared.job.killRequested) = kill ∧
      shared.job.killRequested = hard :=
  ⟨(congrArg Prod.fst h).symm, congrArg (fun r => r.2.1) h, congrArg (fun r => r.2.2) h⟩

theorem RunPlace.step_effect (h : run.step settings shared input = some (shared', run')) :
    RunEffect shared run shared' run' := by
  cases run with
  | booting =>
    rw [RunPlace.step] at h
    split at h <;> cases h
    · exact .bootFailed
    · exact .booted _
  | spawning phase =>
    simp only [RunPlace.step] at h
    split at h
    · cases h
      exact .spawned phase
    · cases phase <;> cases h
      · exact .buildFailed
      · exact .raised
  | registering phase child =>
    rw [RunPlace.step] at h
    split at h
    · rename_i hRegister
      cases h
      obtain ⟨rfl, hKill, rfl⟩ := registerProc_eq hRegister
      exact .refused phase child _ hKill
    · rename_i hRegister
      cases h
      obtain ⟨rfl, hKill, -⟩ := registerProc_eq hRegister
      exact .registered phase child _ hKill
  | stopping child hard =>
    cases h
    exact .stopped child hard
  | reaping child =>
    obtain ⟨code, hExit, hNext⟩ := Option.map_eq_some_iff.mp h
    cases hNext
    exact .reaped child code hExit
  | refused code =>
    cases h
    exact .refusal code
  | reading phase child =>
    cases h
    split
    · exact .ended phase child
    · exact .broke phase child
  | breaking phase child =>
    cases h
    exact .broken phase child
  | waiting phase child =>
    obtain ⟨code, hExit, hNext⟩ := Option.map_eq_some_iff.mp h
    cases phase with
    | build =>
      cases hNext
      split
      · rename_i hCode
        exact .built child (hCode ▸ hExit)
      · rename_i hCode
        exact .unbuilt child code hExit hCode
    | run =>
      cases hNext
      exact .ran child code hExit
  | failing code =>
    cases h
    exact .failed code
  | finishing child code =>
    cases h
    split
    · exact .finishedSweeping child code
    · exact .finished child code
  | sweeping child =>
    cases h
    exact .swept child
  | returned => cases h
  | raised => cases h

theorem RunEffect.grows (h : RunEffect shared run shared' run') : Grows shared shared' := by
  cases h with
  | spawned phase =>
    refine ⟨by simp, fun c s hMem => ?_, id, id, id⟩
    have hLess : c < shared.children.length := by
      by_contra hMore
      rw [Shared.signalsOf, List.getElem?_eq_none (Nat.not_lt.mp hMore)] at hMem
      cases hMem
    rwa [signalsOf_popen shared c hLess]
  | stopped child hard => exact .signal _ _ _
  | broken phase child => exact .signal _ _ _
  | swept child => exact .signal _ _ _
  | refusal code => exact ⟨Nat.le_refl _, fun _ _ h => h, id, id, id⟩
  | failed code => exact ⟨Nat.le_refl _, fun _ _ h => h, id, id, id⟩
  | finished child code => exact ⟨Nat.le_refl _, fun _ _ h => h, id, id, id⟩
  | finishedSweeping child code => exact ⟨Nat.le_refl _, fun _ _ h => h, id, id, id⟩
  | refused phase child graceful h => exact ⟨Nat.le_refl _, fun _ _ h => h, id, id, id⟩
  | registered phase child graceful h => exact ⟨Nat.le_refl _, fun _ _ h => h, id, id, id⟩
  | _ => exact .refl _

/-! ## Steps of the system -/

theorem step_cases {label : Label} (h : st.step settings label = some fin) :
    (∃ input shared run, label = .run input ∧ RunEffect st.shared st.run shared run ∧ fin = { st with shared, run }) ∨
      (∃ c, label = .call c ∧ fin = { st with calls := st.calls ++ started [c] }) ∨
      (∃ n input c place shared place' timers, label = .step n input ∧ st.calls[n]? = some (c, place) ∧
        CallEffect st.shared place shared place' ∧ (∀ timer ∈ timers, ∃ child, timer = .escalate child) ∧
        fin = { st with shared, calls := st.calls.set n (c, place') ++ started timers }) ∨
      ∃ child code, label = .exit child code ∧ st.shared.running child = true ∧
        fin = { st with shared := st.shared.exited child code } := by
  cases label with
  | run input =>
    obtain ⟨⟨shared, run⟩, hRun, rfl⟩ := Option.map_eq_some_iff.mp h
    exact .inl ⟨input, shared, run, rfl, RunPlace.step_effect hRun, rfl⟩
  | call c =>
    cases c with
    | escalate child => cases h
    | _ =>
      cases h
      exact .inr (.inl ⟨_, rfl, rfl⟩)
  | step n input =>
    rw [System.step] at h
    split at h
    · cases h
    · rename_i c place hCall
      obtain ⟨⟨shared, place', timers⟩, hPlace, rfl⟩ := Option.map_eq_some_iff.mp h
      exact .inr (.inr (.inl ⟨n, input, c, place, shared, place', timers, rfl, hCall, Place.step_effect hPlace, Place.step_timers hPlace, rfl⟩))
  | exit child code =>
    rw [System.step] at h
    split at h
    · rename_i hRunning
      cases h
      exact .inr (.inr (.inr ⟨child, code, rfl, hRunning, rfl⟩))
    · cases h

theorem step_grows {label : Label} (h : st.step settings label = some fin) : Grows st.shared fin.shared := by
  obtain ⟨input, shared, run, -, hEffect, rfl⟩ | ⟨c, -, rfl⟩ |
    ⟨n, input, c, place, shared, place', timers, -, -, hPlace, -, rfl⟩ | ⟨child, code, -, -, rfl⟩ := step_cases h
  · exact hEffect.grows
  · exact .refl _
  · exact hPlace.grows
  · refine ⟨?_, fun c => ?_, id, id, id⟩
    · simp
    · simp

/-! ## The child of the run thread -/

/-- The child that may be running. -/
def RunPlace.liveChild : RunPlace → Option Nat
  | .registering _ child => some child
  | .stopping child _ => some child
  | .reaping child => some child
  | .reading _ child => some child
  | .breaking _ child => some child
  | .waiting _ child => some child
  | _ => none

def RunPlace.unregistered : RunPlace → Bool
  | .registering .. => true
  | _ => false

/-- The job is done. -/
def RunPlace.over : RunPlace → Bool
  | .sweeping _ => true
  | .returned => true
  | _ => false

structure Held (shared : Shared) (run : RunPlace) : Prop where
  bounded : ∀ child, run.liveChild = some child → child < shared.children.length
  alone : ∀ child, shared.running child = true → run.liveChild = some child
  held : ∀ child, run.liveChild = some child → run.unregistered = false → shared.job.proc = some child
  known : ∀ child, shared.job.proc = some child → child < shared.children.length
  fresh : ∀ child, run.liveChild = some child → run.unregistered = true → shared.job.proc ≠ some child
  done : shared.job.done = run.over

theorem Held.init : Held System.init.shared System.init.run := ⟨nofun, nofun, nofun, nofun, nofun, rfl⟩

theorem Held.leaves (h : Held shared run) (hLeaves : Leaves shared shared') : Held shared' run where
  bounded child hChild := hLeaves.length ▸ h.bounded child hChild
  alone child hRunning := h.alone child (hLeaves.running child ▸ hRunning)
  held child hChild hRegistered := hLeaves.proc ▸ h.held child hChild hRegistered
  known child hProc := hLeaves.length ▸ h.known child (hLeaves.proc ▸ hProc)
  fresh child hChild hFresh := hLeaves.proc ▸ h.fresh child hChild hFresh
  done := hLeaves.done.trans h.done

theorem Held.exited (h : Held shared run) {code : Int} (hChild : run.liveChild = some child)
    (hExit : shared.exitOf child = some code) (c : Nat) : shared.running c = false := by
  rw [← Bool.not_eq_true]
  intro hRunning
  obtain rfl := Option.some.inj (hChild.symm.trans (h.alone c hRunning))
  rw [running_iff, hExit] at hRunning
  cases hRunning.2

theorem Held.alone_none (h : Held shared run) (hChild : run.liveChild = none) (c : Nat) : shared.running c = false := by
  rw [← Bool.not_eq_true]
  intro hRunning
  cases hChild.symm.trans (h.alone c hRunning)

theorem Held.idle (hNone : ∀ c, shared.running c = false)
    (hKnown : ∀ child, shared.job.proc = some child → child < shared.children.length) (hChild : run.liveChild = none)
    (hDone : shared.job.done = run.over) : Held shared run where
  bounded _ hSome := nomatch hChild.symm.trans hSome
  alone c hRunning := nomatch (hNone c).symm.trans hRunning
  held _ hSome := nomatch hChild.symm.trans hSome
  known := hKnown
  fresh _ hSome := nomatch hChild.symm.trans hSome
  done := hDone

theorem Held.next (h : Held shared run) (hChild : run'.liveChild = run.liveChild) (hRegistered : run.unregistered = false)
    (hRegistered' : run'.unregistered = false) (hOver : run'.over = run.over) : Held shared run' where
  bounded child hSome := h.bounded child (hChild ▸ hSome)
  alone child hRunning := hChild.trans (h.alone child hRunning)
  held child hSome _ := h.held child (hChild ▸ hSome) hRegistered
  known := h.known
  fresh _ _ hFresh := nomatch hRegistered'.symm.trans hFresh
  done := h.done.trans hOver.symm

theorem Held.register {phase : Phase} (h : Held shared (.registering phase child)) (graceful : Bool)
    (hChild : run'.liveChild = some child) (hRegistered : run'.unregistered = false) (hOver : run'.over = false) :
    Held (shared.registerProc child graceful).1 run' where
  bounded c hSome := h.bounded c (hChild.symm.trans hSome)
  alone c hRunning := hChild.trans (h.alone c hRunning)
  held _ hSome _ := hChild.symm.trans hSome
  known c hProc := h.bounded c hProc
  fresh _ _ hFresh := nomatch hRegistered.symm.trans hFresh
  done := h.done.trans hOver.symm

theorem Held.effect (h : Held shared run) (hEffect : RunEffect shared run shared' run') : Held shared' run' := by
  cases hEffect with
  | bootFailed => exact .idle (h.alone_none rfl) h.known rfl h.done
  | booted phase => exact .idle (h.alone_none rfl) h.known rfl h.done
  | spawned phase =>
    constructor
    · rintro child ⟨⟩
      simp
    · intro child hRunning
      rw [running_popen, h.alone_none rfl, Bool.false_or, decide_eq_true_eq] at hRunning
      exact congrArg some hRunning.symm
    · rintro child - ⟨⟩
    · intro child hProc
      rw [length_popen]
      exact Nat.lt_succ_of_lt (h.known child hProc)
    · rintro child ⟨⟩ - hProc
      exact Nat.lt_irrefl _ (h.known _ hProc)
    · exact h.done
  | buildFailed => exact .idle (h.alone_none rfl) h.known rfl h.done
  | raised => exact .idle (h.alone_none rfl) h.known rfl h.done
  | refused phase child graceful hKill => exact h.register _ rfl rfl rfl
  | registered phase child graceful hKill => exact h.register _ rfl rfl rfl
  | stopped child hard =>
    have hNext : Held shared (.reaping child) := h.next rfl rfl rfl rfl
    exact hNext.leaves (.signal ..)
  | reaped child code hExit => exact .idle (h.exited rfl hExit) h.known rfl h.done
  | refusal code => exact .idle (h.alone_none rfl) nofun rfl rfl
  | ended phase child => exact h.next rfl rfl rfl rfl
  | broke phase child => exact h.next rfl rfl rfl rfl
  | broken phase child =>
    have hNext : Held shared (.waiting phase child) := h.next rfl rfl rfl rfl
    exact hNext.leaves (.signal ..)
  | built child hExit => exact .idle (h.exited rfl hExit) h.known rfl h.done
  | unbuilt child code hExit hCode => exact .idle (h.exited rfl hExit) h.known rfl h.done
  | ran child code hExit => exact .idle (h.exited rfl hExit) h.known rfl h.done
  | failed code => exact .idle (h.alone_none rfl) h.known rfl rfl
  | finished child code => exact .idle (h.alone_none rfl) nofun rfl rfl
  | finishedSweeping child code => exact .idle (h.alone_none rfl) nofun rfl rfl
  | swept child =>
    have hNext : Held shared .returned := .idle (h.alone_none rfl) h.known rfl h.done
    exact hNext.leaves (.signal ..)

theorem Held.step (h : Held st.shared st.run) {label : Label} (hStep : st.step settings label = some fin) :
    Held fin.shared fin.run := by
  obtain ⟨input, shared, run, -, hEffect, rfl⟩ | ⟨c, -, rfl⟩ |
    ⟨n, input, c, place, shared, place', timers, -, -, hPlace, -, rfl⟩ | ⟨child, code, -, -, rfl⟩ := step_cases hStep
  · exact h.effect hEffect
  · exact h
  · exact h.leaves hPlace.leaves
  · constructor
    · intro c hChild
      rw [length_exited]
      exact h.bounded c hChild
    · intro c hRunning
      rw [running_exited, Bool.and_eq_true] at hRunning
      exact h.alone c hRunning.1
    · exact h.held
    · intro c hProc
      rw [length_exited]
      exact h.known c hProc
    · exact h.fresh
    · exact h.done

theorem done_step (h : Held st.shared st.run) {label : Label} (hStep : st.step settings label = some fin)
    (hDone : st.shared.job.done = true) :
    fin.shared.job.done = true ∧ fin.shared.job.exitCode = st.shared.job.exitCode := by
  obtain ⟨input, shared, run, -, hEffect, rfl⟩ | ⟨c, -, rfl⟩ |
    ⟨n, input, c, place, shared, place', timers, -, -, hPlace, -, rfl⟩ | ⟨child, code, -, -, rfl⟩ := step_cases hStep
  · have hOver : st.run.over = true := h.done.symm.trans hDone
    generalize st.run = run' at hEffect hOver
    cases hEffect with
    | swept child => exact ⟨hDone, rfl⟩
    | _ => cases hOver
  · exact ⟨hDone, rfl⟩
  · have hLeaves := hPlace.leaves
    exact ⟨hLeaves.done.trans hDone, hLeaves.exitCode⟩
  · exact ⟨hDone, rfl⟩

/-! ## The stops -/

def Signal.counts (hard : Bool) (s : Signal) : Bool := !hard || s = .kill

/-- The thread stands between the start of the child and a stop of it. -/
def RunPlace.stops (hard : Bool) (child : Nat) : RunPlace → Bool
  | .registering _ c => c = child
  | .stopping c shoots => c = child && (!hard || shoots)
  | _ => false

/-- The child was sent a stop, or the run thread will send it one. -/
def Sent (hard : Bool) (child : Nat) (st : System) : Prop :=
  st.run.stops hard child = true ∨ ∃ s ∈ st.shared.signalsOf child, s.counts hard = true

/-- What a registration sees of the stops before it. -/
def Job.stopAsked (hard : Bool) (job : Job) : Bool := if hard then job.killRequested else job.cancelled

theorem Sent.step (h : Sent hard child st) (hBound : child < st.shared.children.length) {label : Label}
    (hAsked : ∀ input phase, label = .run input → st.run = .registering phase child →
      st.shared.job.stopAsked hard = true)
    (hStep : st.step settings label = some fin) : Sent hard child fin := by
  obtain hStops | ⟨s, hMem, hCounts⟩ := h
  · obtain ⟨input, shared, run, rfl, hEffect, rfl⟩ | ⟨c, -, rfl⟩ |
      ⟨n, input, c, place, shared, place', timers, -, -, -, -, rfl⟩ | ⟨c, code, -, -, rfl⟩ := step_cases hStep
    · replace hAsked := fun phase => hAsked input phase rfl
      generalize st.run = before at hEffect hStops hAsked
      cases hEffect with
      | refused phase c graceful hKill =>
        obtain rfl : c = child := by simpa [RunPlace.stops] using hStops
        refine .inl ?_
        have hHere := hAsked phase rfl
        cases hard with
        | false => simp [RunPlace.stops]
        | true => simpa [RunPlace.stops, Job.stopAsked] using hHere
      | registered phase c graceful hKill =>
        obtain rfl : c = child := by simpa [RunPlace.stops] using hStops
        have hHere := hAsked phase rfl
        rw [Bool.or_eq_false_iff] at hKill
        cases hard with
        | false => cases hHere.symm.trans hKill.1
        | true => cases hHere.symm.trans hKill.2
      | stopped c shoots =>
        obtain ⟨hSame, hShoots⟩ : c = child ∧ (!hard || shoots) = true := by
          simpa [RunPlace.stops] using hStops
        refine .inr ⟨if shoots then .kill else .term, ?_, ?_⟩
        · simp [signalsOf_signal, hSame, hBound]
        · cases shoots with
          | false => simpa [Signal.counts] using hShoots
          | true => simp [Signal.counts]
      | _ => cases hStops
    · exact .inl hStops
    · exact .inl hStops
    · exact .inl hStops
  · exact .inr ⟨s, (step_grows hStep).signals child hMem, hCounts⟩

theorem Sent.started {label : Label} (hStep : st.step settings label = some fin)
    (hNew : st.shared.children.length ≤ child) (hBound : child < fin.shared.children.length) : Sent hard child fin := by
  obtain ⟨input, shared, run, -, hEffect, rfl⟩ | ⟨c, -, rfl⟩ |
    ⟨n, input, c, place, shared, place', timers, -, -, hPlace, -, rfl⟩ | ⟨c, code, -, -, rfl⟩ := step_cases hStep
  · generalize st.run = before at hEffect
    cases hEffect with
    | spawned phase =>
      rw [length_popen] at hBound
      refine .inl ?_
      have hLast : st.shared.children.length = child := by omega
      simp [RunPlace.stops, hLast]
    | stopped c shoots =>
      rw [length_signal] at hBound
      omega
    | broken phase c =>
      rw [length_signal] at hBound
      omega
    | swept c =>
      rw [length_signal] at hBound
      omega
    | _ => exact absurd hNew (Nat.not_le.mpr hBound)
  · exact absurd hNew (Nat.not_le.mpr hBound)
  · have hLength := hPlace.leaves.length
    have hLess : child < shared.children.length := hBound
    omega
  · rw [length_exited] at hBound
    omega

/-- The children that run, or that are started later, are stopped, as long as what asks for it stands. -/
theorem Sent.reaches {ok : System → Label → Prop} {standing : System → Prop}
    (hKeeps : ∀ st fin label, standing st → ok st label → st.step settings label = some fin → standing fin)
    (hAsked : ∀ st input phase child, standing st → ok st (.run input) → st.run = .registering phase child →
      st.shared.job.stopAsked hard = true)
    (h : ReachesWhile (System.step settings) ok mid fin) (hStanding : standing mid)
    (hMid : ∀ child, mid.shared.running child = true → Sent hard child mid) (hBound : child < fin.shared.children.length)
    (hChild : mid.shared.running child = true ∨ mid.shared.children.length ≤ child) : Sent hard child fin := by
  suffices hBoth : standing fin ∧ (child < fin.shared.children.length → Sent hard child fin) from hBoth.2 hBound
  clear hBound
  induction h with
  | refl =>
    refine ⟨hStanding, fun hLess => ?_⟩
    obtain hRunning | hNew := hChild
    · exact hMid child hRunning
    · omega
  | @tail st fin label h hOk hStep ih =>
    obtain ⟨hHere, hSent⟩ := ih
    refine ⟨hKeeps st fin label hHere hOk hStep, fun hLess => ?_⟩
    rcases Nat.lt_or_ge child st.shared.children.length with hOld | hNew
    · refine (hSent hOld).step hOld ?_ hStep
      rintro input phase rfl hRun
      exact hAsked st input phase child hHere hOk hRun
    · exact Sent.started hStep hNew hLess

/-! ## Cancels -/

/-- The call has marked the job cancelled. -/
def Place.flagged : Place → Bool
  | .asking _ => true
  | .terminating _ => true
  | .answered stopped => stopped
  | _ => false

/-- The child that the call will still stop. -/
def Place.target : Place → Option Nat
  | .asking child => some child
  | .terminating child => some child
  | _ => none

structure CancelsStand (st : System) : Prop where
  held : Held st.shared st.run
  cancelled : ∀ call place, (call, place) ∈ st.calls → place.flagged = true → st.shared.job.cancelled = true
  stopped : ∀ call place, (call, place) ∈ st.calls → place.flagged = true → ∀ child, st.shared.running child = true →
    Sent false child st ∨ place.target = some child

/-- A child that runs after a step ran before it, or was started by it. -/
theorem running_step {label : Label} (hStep : st.step settings label = some fin)
    (hRunning : fin.shared.running child = true) :
    st.shared.running child = true ∨ st.shared.children.length ≤ child := by
  obtain ⟨input, shared, run, -, hEffect, rfl⟩ | ⟨c, -, rfl⟩ |
    ⟨n, input, c, place, shared, place', timers, -, -, hPlace, -, rfl⟩ | ⟨c, code, -, -, rfl⟩ := step_cases hStep
  · generalize st.run = before at hEffect
    cases hEffect with
    | spawned phase =>
      rw [running_popen, Bool.or_eq_true, decide_eq_true_eq] at hRunning
      exact hRunning.imp_right fun hLast => Nat.le_of_eq hLast.symm
    | stopped c shoots => exact .inl ((running_signal ..).symm.trans hRunning)
    | broken phase c => exact .inl ((running_signal ..).symm.trans hRunning)
    | swept c => exact .inl ((running_signal ..).symm.trans hRunning)
    | _ => exact .inl hRunning
  · exact .inl hRunning
  · exact .inl ((hPlace.leaves.running child).symm.trans hRunning)
  · rw [running_exited, Bool.and_eq_true] at hRunning
    exact .inl hRunning.1

/-- Where a call stands after a step: where it stood, at its start, or where its own step brought it. -/
theorem call_step {label : Label} (hStep : st.step settings label = some fin) {call : Call}
    (hMem : (call, place') ∈ fin.calls) :
    (call, place') ∈ st.calls ∨ place' = call.start ∨
      ∃ n input place, label = .step n input ∧ st.calls[n]? = some (call, place) ∧
        CallEffect st.shared place fin.shared place' ∧ fin.run = st.run := by
  have hStarted (calls : List Call) (hNew : (call, place') ∈ started calls) : place' = call.start := by
    obtain ⟨c, -, hSame⟩ := List.mem_map.mp hNew
    obtain ⟨rfl, rfl⟩ := Prod.mk.inj hSame
    rfl
  obtain ⟨input, shared, run, -, -, rfl⟩ | ⟨c, -, rfl⟩ |
    ⟨n, input, c, place, shared, after, timers, hLabel, hCall, hPlace, -, rfl⟩ | ⟨c, code, -, -, rfl⟩ := step_cases hStep
  · exact .inl hMem
  · obtain hOld | hNew := List.mem_append.mp hMem
    · exact .inl hOld
    · exact .inr (.inl (hStarted _ hNew))
  · obtain hSet | hNew := List.mem_append.mp hMem
    · obtain hOld | hSame := List.mem_or_eq_of_mem_set hSet
      · exact .inl hOld
      · obtain ⟨rfl, rfl⟩ := Prod.mk.inj hSame
        exact .inr (.inr ⟨n, input, place, hLabel, hCall, hPlace, rfl⟩)
    · exact .inr (.inl (hStarted _ hNew))
  · exact .inl hMem

theorem Call.start_flagged (c : Call) : c.start.flagged = false := by cases c <;> rfl

theorem Held.sent_or_proc (h : Held st.shared st.run) (hRunning : st.shared.running child = true) :
    (∃ phase, st.run = .registering phase child) ∨ st.shared.job.proc = some child := by
  have hChild := h.alone child hRunning
  cases hRun : st.run with
  | registering phase c =>
    rw [hRun] at hChild
    obtain rfl := Option.some.inj hChild
    exact .inl ⟨phase, rfl⟩
  | _ => exact .inr (h.held child hChild (by rw [hRun]; rfl))

theorem sent_signal {s : Signal} (hShared : fin.shared = st.shared.signal child s)
    (hBound : child < st.shared.children.length) (hCounts : s.counts hard = true) : Sent hard child fin := by
  refine .inr ⟨s, ?_, hCounts⟩
  simp [hShared, signalsOf_signal, hBound]

/-- A call that goes on past its mark has stopped what it has to, or will. -/
theorem CancelsStand.flagged (h : CancelsStand st) {n : Nat} {call : Call}
    (hCall : st.calls[n]? = some (call, place)) (hPlace : CallEffect st.shared place fin.shared place')
    (hRun : fin.run = st.run) (hFlagged : place'.flagged = true) :
    fin.shared.job.cancelled = true ∧ ∀ child, fin.shared.running child = true →
      Sent false child fin ∨ place'.target = some child := by
  have hMem := List.mem_of_getElem? hCall
  have hKept (child : Nat) (hSent : Sent false child st) : Sent false child fin :=
    hSent.imp (hRun ▸ ·) fun ⟨s, hSignal, hCounts⟩ => ⟨s, hPlace.grows.signals child hSignal, hCounts⟩
  have hRegistering {child : Nat} {phase : Phase} (hHere : st.run = .registering phase child) :
      Sent false child fin := .inl (by simp [hRun, hHere, RunPlace.stops])
  have hSignalled (c : Nat) (hStopped : ∀ child, st.shared.running child = true → Sent false child st ∨ some c = some child)
      (hShared : fin.shared = st.shared.signal c .term) (child : Nat) (hRunning : fin.shared.running child = true) :
      Sent false child fin := by
    rw [hShared, running_signal] at hRunning
    obtain hSent | hTarget := hStopped child hRunning
    · exact hKept child hSent
    · obtain rfl := Option.some.inj hTarget
      exact sent_signal hShared ((running_iff _ _).mp hRunning).1 rfl
  generalize fin.shared = after at hPlace hSignalled ⊢
  cases hPlace with
  | alone hProc =>
    refine ⟨rfl, fun child hRunning => .inl ?_⟩
    obtain ⟨phase, hRun⟩ | hChild := h.held.sent_or_proc hRunning
    · exact hRegistering hRun
    · cases hProc.symm.trans hChild
  | graceful c hProc =>
    refine ⟨rfl, fun child hRunning => ?_⟩
    obtain ⟨phase, hRun⟩ | hChild := h.held.sent_or_proc hRunning
    · exact .inl (hRegistering hRun)
    · exact .inr (hProc.symm.trans hChild)
  | outright c hProc =>
    refine ⟨rfl, fun child hRunning => ?_⟩
    obtain ⟨phase, hRun⟩ | hChild := h.held.sent_or_proc hRunning
    · exact .inl (hRegistering hRun)
    · exact .inr (hProc.symm.trans hChild)
  | asked c =>
    have hStopped := h.stopped call _ hMem rfl
    exact ⟨h.cancelled call _ hMem rfl, fun child hRunning => .inl (hSignalled c hStopped rfl child hRunning)⟩
  | unasked c =>
    have hStopped := h.stopped call _ hMem rfl
    exact ⟨h.cancelled call _ hMem rfl, fun child hRunning => (hStopped child hRunning).imp_left (hKept child)⟩
  | terminated c =>
    have hStopped := h.stopped call _ hMem rfl
    exact ⟨h.cancelled call _ hMem rfl, fun child hRunning => .inl (hSignalled c hStopped rfl child hRunning)⟩
  | _ => cases hFlagged

theorem CancelsStand.step (h : CancelsStand st) {label : Label} (hStep : st.step settings label = some fin) :
    CancelsStand fin := by
  -- The other calls, and what they have marked.
  have hOld (call : Call) (place : Place) (hMem : (call, place) ∈ st.calls) (hFlagged : place.flagged = true) :
      fin.shared.job.cancelled = true ∧ ∀ child, fin.shared.running child = true →
        Sent false child fin ∨ place.target = some child := by
    have hCancelled := h.cancelled call place hMem hFlagged
    refine ⟨(step_grows hStep).cancelled hCancelled, fun child hRunning => ?_⟩
    obtain hBefore | hNew := running_step hStep hRunning
    · refine (h.stopped call place hMem hFlagged child hBefore).imp_left fun hSent => ?_
      exact hSent.step ((running_iff _ _).mp hBefore).1 (fun _ _ _ _ => hCancelled) hStep
    · exact .inl (.started hStep hNew ((running_iff _ _).mp hRunning).1)
  have hAll (call : Call) (place' : Place) (hMem : (call, place') ∈ fin.calls) (hFlagged : place'.flagged = true) :
      fin.shared.job.cancelled = true ∧ ∀ child, fin.shared.running child = true →
        Sent false child fin ∨ place'.target = some child := by
    obtain hBefore | rfl | ⟨n, input, place, -, hCall, hPlace, hRun⟩ := call_step hStep hMem
    · exact hOld call place' hBefore hFlagged
    · cases (Call.start_flagged call).symm.trans hFlagged
    · exact h.flagged hCall hPlace hRun hFlagged
  constructor
  · exact h.held.step hStep
  · intro call place hMem hFlagged
    exact (hAll call place hMem hFlagged).1
  · intro call place hMem hFlagged
    exact (hAll call place hMem hFlagged).2

theorem CancelsStand.reaches (h : Reaches (System.step settings) .init fin) : CancelsStand fin :=
  h.keeps (fun _ _ _ h _ hStep => h.step hStep) ⟨.init, nofun, nofun⟩

/-- After a `cancel_job` returned true: every child that ran then or was started since was sent a stop, or will be as
the run thread registers it, no child that still runs is left out, and the job does not end as ok. -/
structure CancelKept (mid fin : System) : Prop where
  sent : ∀ child < fin.shared.children.length,
    mid.shared.running child = true ∨ mid.shared.children.length ≤ child → Sent false child fin
  left : ∀ child, fin.shared.running child = true → Sent false child fin
  notOk : fin.shared.job.ok ≠ some true

theorem running_reaches (h : Reaches (System.step settings) mid fin) (hRunning : fin.shared.running child = true) :
    mid.shared.running child = true ∨ mid.shared.children.length ≤ child := by
  induction h with
  | refl => exact .inl hRunning
  | tail h _ hStep ih =>
    obtain hBefore | hNew := running_step hStep hRunning
    · exact ih hBefore
    · have hLength : mid.shared.children.length ≤ _ :=
        h.keeps (P := fun st => mid.shared.children.length ≤ st.shared.children.length)
          (fun _ _ _ hLe _ hStep => Nat.le_trans hLe (step_grows hStep).length) (Nat.le_refl _)
      exact .inr (Nat.le_trans hLength hNew)

theorem CancelKept.of_reaches (h : CancelsStand mid) (hReturned : mid.cancelReturned)
    (hReaches : Reaches (System.step settings) mid fin) : CancelKept mid fin := by
  obtain ⟨call, hMem⟩ := hReturned
  have hCancelled := h.cancelled call _ hMem rfl
  have hSent : ∀ child < fin.shared.children.length,
      mid.shared.running child = true ∨ mid.shared.children.length ≤ child → Sent false child fin := by
    intro child hBound hChild
    refine Sent.reaches (fun st fin label hStands _ hStep => (step_grows hStep).cancelled hStands)
      (fun st input phase child hStands _ _ => hStands) hReaches hCancelled ?_ hBound hChild
    intro child hRunning
    exact (h.stopped call _ hMem rfl child hRunning).resolve_right nofun
  constructor
  · exact hSent
  · intro child hRunning
    exact hSent child ((running_iff _ _).mp hRunning).1 (running_reaches hReaches hRunning)
  · have hFin : fin.shared.job.cancelled = true :=
      hReaches.keeps (P := fun st => st.shared.job.cancelled = true)
        (fun _ _ _ hStands _ hStep => (step_grows hStep).cancelled hStands) hCancelled
    rw [Job.ok, hFin]
    simp

/-! ## The end of the job -/

/-- A job is done at most once, with one exit code. When its thread has returned it is done and no child runs. -/
structure DoneOnce (mid fin : System) : Prop where
  kept : mid.shared.job.done = true →
    fin.shared.job.done = true ∧ fin.shared.job.exitCode = mid.shared.job.exitCode
  returned : fin.run = .returned →
    fin.shared.job.done = true ∧ ∀ child, fin.shared.running child = false

theorem Held.reaches (h : Reaches (System.step settings) mid fin) (hMid : Held mid.shared mid.run) :
    Held fin.shared fin.run :=
  h.keeps (P := fun st => Held st.shared st.run) (fun _ _ _ h _ hStep => h.step hStep) hMid

theorem DoneOnce.of_reaches (hMid : Held mid.shared mid.run) (h : Reaches (System.step settings) mid fin) :
    DoneOnce mid fin := by
  constructor
  · intro hDone
    induction h with
    | refl => exact ⟨hDone, rfl⟩
    | tail h _ hStep ih =>
      obtain ⟨hHere, hCode⟩ := ih
      obtain ⟨hFin, hSame⟩ := done_step (Held.reaches h hMid) hStep hHere
      exact ⟨hFin, hSame.trans hCode⟩
  · intro hRun
    have hFin := Held.reaches h hMid
    rw [hRun] at hFin
    exact ⟨hFin.done, hFin.alone_none rfl⟩

end Bajutsu.Serve.JobCancel
