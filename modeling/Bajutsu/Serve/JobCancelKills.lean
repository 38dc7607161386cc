import Bajutsu.Serve.JobCancelSafe

/-!
# One delivery, and the hard kills

The first bind that meets a request delivers the cancel, or the first request that meets a bind. A hard kill stands
as a latch that the next registration sees, or it was sent to a child after which no other is started.
-/

namespace Bajutsu.Serve.JobCancel

open Transition

variable {settings : Settings} {shared shared' : Shared} {st mid fin : System} {run run' : RunPlace}
  {place place' : Place} {child c : Nat} {input : Bool} {call : Call}

/-! ## The places of a call -/

def Place.cancels : Place → Bool
  | .flagging => true
  | .asking _ => true
  | .terminating _ => true
  | .answered _ => true
  | _ => false

def Call.places : Call → Place → Bool
  | .cancelJob, place => place.cancels
  | .bind, .binding => true
  | .bind, .latching _ => true
  | .bind, .returned => true
  | .bind, place => place.cancels
  | .request, .requesting => true
  | .request, .returned => true
  | .request, place => place.cancels
  | .kill, .killing => true
  | .kill, .checking => true
  | .kill, .shooting _ => true
  | .kill, .shot _ => true
  | .kill, .returned => true
  | .escalate _, .polling _ => true
  | .escalate _, .ending _ => true
  | .escalate _, .unwinding _ => true
  | .escalate _, .forcing _ => true
  | .escalate _, .returned => true
  | _, _ => false

theorem Call.places_start (call : Call) : call.places call.start = true := by cases call <;> rfl

theorem Call.places_step (h : call.places place = true) (hPlace : CallEffect shared place shared' place') :
    call.places place' = true := by
  cases hPlace <;> cases call <;> first | rfl | cases h

/-- Every call stands at a place of its own. -/
def Placed (st : System) : Prop := ∀ call place, (call, place) ∈ st.calls → call.places place = true

theorem Placed.step (h : Placed st) {label : Label} (hStep : st.step settings label = some fin) : Placed fin := by
  intro call place' hMem
  obtain hOld | rfl | ⟨n, input, place, -, hCall, hPlace, -⟩ := call_step hStep hMem
  · exact h call place' hOld
  · exact call.places_start
  · exact Call.places_step (h call place (List.mem_of_getElem? hCall)) hPlace

/-! ## The delivery -/

/-- A call of the relay that has gone on to `cancel_job`. -/
def delivered : Call × Place → Bool
  | (.bind, place) => place.cancels && place != .flagging
  | (.request, place) => place.cancels && place != .flagging
  | _ => false

/-- A call of the relay that is about to. -/
def delivering : Call × Place → Bool
  | (.bind, place) => place = .flagging || place = .latching true
  | (.request, place) => place = .flagging
  | _ => false

/-- No job is bound again once a cancel has been delivered to it. -/
def bindsOnce (st : System) : Label → Bool
  | .step n _ =>
    !((st.calls[n]?).any (fun x => x.2 = .binding) && st.shared.relay.bound && st.shared.relay.requested)
  | _ => true

def deliveries (st : System) : Nat := st.calls.countP delivered + st.calls.countP delivering

def Shared.due (shared : Shared) : Nat := if shared.relay.bound && shared.relay.requested then 1 else 0

theorem delivers_place (hPlaces : call.places place = true) (hPlace : CallEffect shared place shared' place')
    (hOk : place = .binding → (shared.relay.bound && shared.relay.requested) = false) :
    (if delivered (call, place') then 1 else 0) + (if delivering (call, place') then 1 else 0) + shared.due =
      (if delivered (call, place) then 1 else 0) + (if delivering (call, place) then 1 else 0) + shared'.due := by
  cases hPlace <;> cases call <;> simp_all [delivered, delivering, Place.cancels, Call.places, Shared.due, Shared.signal]

structure Delivers (st : System) : Prop where
  placed : Placed st
  once : deliveries st = st.shared.due

theorem deliveries_started (calls : List (Call × Place)) (timers : List Call) :
    (calls ++ started timers).countP delivered + (calls ++ started timers).countP delivering =
      calls.countP delivered + calls.countP delivering := by
  have hNone (p : Call × Place → Bool) (hStart : ∀ c : Call, p (c, c.start) = false) : (started timers).countP p = 0 := by
    rw [List.countP_eq_zero]
    intro x hMem
    obtain ⟨c, -, rfl⟩ := List.mem_map.mp hMem
    simp [hStart]
  rw [List.countP_append, List.countP_append, hNone delivered (by intro c; cases c <;> rfl),
    hNone delivering (by intro c; cases c <;> rfl), Nat.add_zero, Nat.add_zero]

theorem due_effect (h : RunEffect shared run shared' run') : shared'.due = shared.due := by
  cases h <;> rfl

theorem Delivers.step (h : Delivers st) {label : Label} (hOk : bindsOnce st label = true)
    (hStep : st.step settings label = some fin) : Delivers fin := by
  refine ⟨h.placed.step hStep, ?_⟩
  have hOnce := h.once
  rw [deliveries] at hOnce ⊢
  obtain ⟨input, shared, run, -, hEffect, rfl⟩ | ⟨c, -, rfl⟩ |
    ⟨n, input, c, place, shared, place', timers, rfl, hCall, hPlace, -, rfl⟩ | ⟨c, code, -, -, rfl⟩ := step_cases hStep
  · exact hOnce.trans (due_effect hEffect).symm
  · exact (deliveries_started st.calls [c]).trans hOnce
  · have hMeets : place = .binding → (st.shared.relay.bound && st.shared.relay.requested) = false := by
      rintro rfl
      rw [Bool.and_eq_false_iff]
      simpa [bindsOnce, hCall] using hOk
    have hOwn := delivers_place (h.placed c place (List.mem_of_getElem? hCall)) hPlace hMeets
    have hDelivered := @countP_set _ delivered _ _ _ (c, place') hCall
    have hDelivering := @countP_set _ delivering _ _ _ (c, place') hCall
    rw [deliveries_started]
    dsimp only
    omega
  · exact hOnce

/-- The relay delivers the cancel at most once, and once when a bind and a request have taken effect, unless the call
that delivers it stands right before that. -/
structure DeliveredOnce (st : System) : Prop where
  atMost : st.calls.countP delivered ≤ 1
  exactly : st.shared.relay.bound = true → st.shared.relay.requested = true →
    st.calls.countP delivered + st.calls.countP delivering = 1

theorem DeliveredOnce.of_reaches
    (h : ReachesWhile (System.step settings) (fun st label => bindsOnce st label = true) .init fin) :
    DeliveredOnce fin := by
  have hFin : Delivers fin :=
    h.keeps (fun _ _ _ h hOk hStep => h.step hOk hStep) ⟨nofun, rfl⟩
  have hOnce := hFin.once
  rw [deliveries, Shared.due] at hOnce
  constructor
  · split at hOnce <;> omega
  · intro hBound hRequested
    simpa [hBound, hRequested] using hOnce

/-! ## Hard kills -/

/-- A kill that is latched in the relay finds no registered child running, and is passed on before the next child is
registered. A build that a kill found running does not exit with 0, unless its job goes no further anyway. -/
def killsHit (st : System) : Label → Bool
  | .run _ => !(st.run.unregistered && st.shared.relay.killRequested && !st.shared.job.killRequested)
  | .call _ => true
  | .step n _ =>
    !((st.calls[n]?).any (fun x => x.2 = .killing) && !st.shared.relay.bound &&
      st.shared.job.proc.any st.shared.running)
  | .exit child code => !(code = 0 && st.builds child && st.found child)

/-- The thread starts no other child after this one. -/
def RunPlace.last (shared : Shared) (child : Nat) : RunPlace → Prop
  | .booting => False
  | .spawning _ => False
  | .registering _ _ => False
  | .stopping c _ => c = child
  | .reaping c => c = child
  | .reading phase c => c = child ∧ (phase = .build → shared.exitOf child ≠ some 0)
  | .breaking phase c => c = child ∧ (phase = .build → shared.exitOf child ≠ some 0)
  | .waiting phase c => c = child ∧ (phase = .build → shared.exitOf child ≠ some 0)
  | _ => True

theorem last_leaves (hLast : run.last shared child) (hLeaves : Leaves shared shared') : run.last shared' child := by
  cases run with
  | reading phase c => exact ⟨hLast.1, fun hBuild => (hLeaves.exitOf child).symm ▸ hLast.2 hBuild⟩
  | breaking phase c => exact ⟨hLast.1, fun hBuild => (hLeaves.exitOf child).symm ▸ hLast.2 hBuild⟩
  | waiting phase c => exact ⟨hLast.1, fun hBuild => (hLeaves.exitOf child).symm ▸ hLast.2 hBuild⟩
  | _ => exact hLast

theorem last_effect (hLast : run.last shared child) (hEffect : RunEffect shared run shared' run') :
    run'.last shared' child := by
  cases hEffect with
  | bootFailed => exact hLast.elim
  | booted phase => exact hLast.elim
  | spawned phase => exact hLast.elim
  | buildFailed => exact hLast.elim
  | raised => exact hLast.elim
  | refused phase c graceful hKill => exact hLast.elim
  | registered phase c graceful hKill => exact hLast.elim
  | stopped c shoots => exact hLast
  | ended phase c => exact hLast
  | broke phase c => exact hLast
  | broken phase c => exact ⟨hLast.1, fun hBuild => (exitOf_signal ..).symm ▸ hLast.2 hBuild⟩
  | built c hExit =>
    obtain ⟨rfl, hCode⟩ := hLast
    exact hCode rfl hExit
  | _ => trivial

/-- A child that the thread goes on with is the last one until it exits with 0. -/
theorem last_exited (hLast : st.run.last st.shared child) {code : Int} (hFound : st.found child = true)
    (hOk : killsHit st (.exit c code) = true) (hRunning : st.shared.running c = true) :
    st.run.last (st.shared.exited c code) child := by
  have hExit (phase : Phase) (hBuild : phase = .build → st.builds child = true)
      (hBefore : phase = .build → st.shared.exitOf child ≠ some 0) :
      phase = .build → (st.shared.exited c code).exitOf child ≠ some 0 := by
    intro hPhase
    rcases eq_or_ne c child with rfl | hNe
    · rw [exitOf_exited_self _ _ _ hRunning]
      rintro ⟨⟩
      simp [killsHit, hFound, hBuild hPhase] at hOk
    · rw [exitOf_exited _ _ _ _ hNe]
      exact hBefore hPhase
  cases hRun : st.run with
  | reading phase c' =>
    rw [hRun] at hLast
    exact ⟨hLast.1, hExit phase (fun hBuild => by simp [System.builds, hRun, hLast.1, hBuild]) hLast.2⟩
  | breaking phase c' =>
    rw [hRun] at hLast
    exact ⟨hLast.1, hExit phase (fun hBuild => by simp [System.builds, hRun, hLast.1, hBuild]) hLast.2⟩
  | waiting phase c' =>
    rw [hRun] at hLast
    exact ⟨hLast.1, hExit phase (fun hBuild => by simp [System.builds, hRun, hLast.1, hBuild]) hLast.2⟩
  | _ =>
    rw [hRun] at hLast
    exact hLast

theorem found_iff : st.found child = true ↔
    (Call.kill, Place.shooting child) ∈ st.calls ∨ (Call.kill, Place.shot child) ∈ st.calls := by
  simp only [System.found, List.any_eq_true, Bool.and_eq_true, Bool.or_eq_true, decide_eq_true_eq]
  constructor
  · rintro ⟨⟨call, place⟩, hMem, rfl, rfl | rfl⟩
    · exact .inl hMem
    · exact .inr hMem
  · rintro (hMem | hMem)
    · exact ⟨_, hMem, rfl, .inl rfl⟩
    · exact ⟨_, hMem, rfl, .inr rfl⟩

structure KillsStand (st : System) : Prop where
  held : Held st.shared st.run
  placed : Placed st
  last : ∀ child, st.found child = true → st.run.last st.shared child
  latched : (Call.kill, Place.returned) ∈ st.calls →
    st.shared.job.killRequested = true ∨ st.shared.relay.killRequested = true
  sent : st.killReturned → ∀ child, st.shared.running child = true → Sent true child st

theorem KillsStand.asked (h : KillsStand st) (hReturned : st.killReturned) {phase : Phase}
    (hOk : killsHit st (.run input) = true) (hRun : st.run = .registering phase child) :
    st.shared.job.killRequested = true := by
  obtain hLatched | ⟨c, hShot⟩ := hReturned
  · obtain hHere | hRelay := h.latched hLatched
    · exact hHere
    · simpa [killsHit, hRun, RunPlace.unregistered, hRelay] using hOk
  · have hLast := h.last c (found_iff.mpr (.inr hShot))
    rw [hRun] at hLast
    exact hLast.elim

theorem Held.last (h : Held shared run) (hProc : shared.job.proc = some child) (hRunning : shared.running child = true) :
    run.last shared child := by
  have hChild := h.alone child hRunning
  have hExit := ((running_iff _ _).mp hRunning).2
  cases run with
  | registering phase c => exact (h.fresh child hChild rfl hProc).elim
  | stopping c shoots => exact Option.some.inj hChild
  | reaping c => exact Option.some.inj hChild
  | reading phase c => exact ⟨Option.some.inj hChild, fun _ hCode => nomatch hExit.symm.trans hCode⟩
  | breaking phase c => exact ⟨Option.some.inj hChild, fun _ hCode => nomatch hExit.symm.trans hCode⟩
  | waiting phase c => exact ⟨Option.some.inj hChild, fun _ hCode => nomatch hExit.symm.trans hCode⟩
  | _ => cases hChild

theorem last_unique (hLast : run.last shared child) (hChild : run.liveChild = some c) : c = child := by
  cases run with
  | stopping c' shoots => exact (Option.some.inj hChild).symm.trans hLast
  | reaping c' => exact (Option.some.inj hChild).symm.trans hLast
  | reading phase c' => exact (Option.some.inj hChild).symm.trans hLast.1
  | breaking phase c' => exact (Option.some.inj hChild).symm.trans hLast.1
  | waiting phase c' => exact (Option.some.inj hChild).symm.trans hLast.1
  | registering phase c' => exact hLast.elim
  | _ => cases hChild

/-- A kill that returns is latched, or has shot the last child, and leaves no registered child behind. -/
theorem KillsStand.returns (h : KillsStand st) {n : Nat} (hCall : st.calls[n]? = some (.kill, place))
    (hPlace : CallEffect st.shared place fin.shared place') (hRun : fin.run = st.run)
    (hOk : killsHit st (.step n input) = true) (hReturned : place' = .returned ∨ ∃ c, place' = .shot c) :
    (place' = .returned → fin.shared.job.killRequested = true ∨ fin.shared.relay.killRequested = true) ∧
      ∀ child, fin.shared.running child = true → Sent true child fin := by
  have hMem := List.mem_of_getElem? hCall
  have hPlaced := h.placed _ _ hMem
  have hRegistering (hNone : ∀ child, st.shared.job.proc = some child → st.shared.running child = false) (child : Nat)
      (hRunning : st.shared.running child = true) : Sent true child fin := by
    obtain ⟨phase, hHere⟩ | hProc := h.held.sent_or_proc hRunning
    · exact .inl (by simp [hRun, hHere, RunPlace.stops])
    · cases (hNone child hProc).symm.trans hRunning
  have hSignalled (child : Nat) (hShared : fin.shared = st.shared.signal child .kill)
      (hRunning : st.shared.running child = true) : Sent true child fin :=
    sent_signal hShared ((running_iff _ _).mp hRunning).1 rfl
  generalize fin.shared = after at hPlace hSignalled ⊢
  cases hPlace with
  | killEarly hBound =>
    refine ⟨fun _ => .inr rfl, hRegistering fun child hProc => ?_⟩
    simpa [killsHit, hCall, hBound, hProc] using hOk
  | missed hNone => exact ⟨fun _ => .inl rfl, hRegistering hNone⟩
  | shot c =>
    refine ⟨(by rintro ⟨⟩), fun child hRunning => ?_⟩
    rw [running_signal] at hRunning
    obtain rfl : child = c := last_unique (h.last c (found_iff.mpr (.inl hMem))) (h.held.alone child hRunning)
    exact hSignalled child rfl hRunning
  | killBound =>
    obtain hSame | ⟨c, hSame⟩ := hReturned
    · cases hSame
    · cases hSame
  | hit child hProc hRunning =>
    obtain hSame | ⟨c, hSame⟩ := hReturned
    · cases hSame
    · cases hSame
  | _ => cases hPlaced

theorem found_step {label : Label} (hStep : st.step settings label = some fin) (hFound : fin.found child = true) :
    st.found child = true ∨
      (st.shared.job.proc = some child ∧ st.shared.running child = true ∧ fin.shared = st.shared ∧ fin.run = st.run) := by
  obtain hShooting | hShot := found_iff.mp hFound
  · obtain hOld | hSame | ⟨n, input, place, -, -, hPlace, hRun⟩ := call_step hStep hShooting
    · exact .inl (found_iff.mpr (.inl hOld))
    · cases hSame
    · generalize fin.shared = after at hPlace
      cases hPlace with
      | hit c hProc hRunning => exact .inr ⟨hProc, hRunning, rfl, hRun⟩
  · obtain hOld | hSame | ⟨n, input, place, -, hCall, hPlace, -⟩ := call_step hStep hShot
    · exact .inl (found_iff.mpr (.inr hOld))
    · cases hSame
    · generalize fin.shared = after at hPlace
      cases hPlace with
      | shot c => exact .inl (found_iff.mpr (.inl (List.mem_of_getElem? hCall)))

theorem KillsStand.last_step (h : KillsStand st) {label : Label} (hOk : killsHit st label = true)
    (hStep : st.step settings label = some fin) (hFound : fin.found child = true) : fin.run.last fin.shared child := by
  obtain hOld | ⟨hProc, hRunning, hShared, hRun⟩ := found_step hStep hFound
  · have hLast := h.last child hOld
    obtain ⟨input, shared, run, -, hEffect, rfl⟩ | ⟨c, -, rfl⟩ |
      ⟨n, input, call, place, shared, place', timers, -, -, hPlace, -, rfl⟩ | ⟨c, code, rfl, hRunning, rfl⟩ :=
      step_cases hStep
    · exact last_effect hLast hEffect
    · exact hLast
    · exact last_leaves hLast hPlace.leaves
    · exact last_exited hLast hOld hOk hRunning
  · rw [hShared, hRun]
    exact h.held.last hProc hRunning

theorem KillsStand.step (h : KillsStand st) {label : Label} (hOk : killsHit st label = true)
    (hStep : st.step settings label = some fin) : KillsStand fin := by
  -- What a kill that had returned before the step goes on to see.
  have hSent (hReturned : st.killReturned) (child : Nat) (hRunning : fin.shared.running child = true) :
      Sent true child fin := by
    obtain hBefore | hNew := running_step hStep hRunning
    · refine (h.sent hReturned child hBefore).step ((running_iff _ _).mp hBefore).1 ?_ hStep
      rintro input phase rfl hRun
      exact h.asked hReturned hOk hRun
    · exact .started hStep hNew ((running_iff _ _).mp hRunning).1
  constructor
  · exact h.held.step hStep
  · exact h.placed.step hStep
  · intro child hFound
    exact h.last_step hOk hStep hFound
  · intro hMem
    obtain hOld | hSame | ⟨n, input, place, rfl, hCall, hPlace, hRun⟩ := call_step hStep hMem
    · exact (h.latched hOld).imp (step_grows hStep).killRequested (step_grows hStep).relayKill
    · cases hSame
    · exact (h.returns hCall hPlace hRun hOk (.inl rfl)).1 rfl
  · rintro (hMem | ⟨c, hMem⟩)
    · obtain hOld | hSame | ⟨n, input, place, rfl, hCall, hPlace, hRun⟩ := call_step hStep hMem
      · exact hSent (.inl hOld)
      · cases hSame
      · exact (h.returns hCall hPlace hRun hOk (.inl rfl)).2
    · obtain hOld | hSame | ⟨n, input, place, rfl, hCall, hPlace, hRun⟩ := call_step hStep hMem
      · exact hSent (.inr ⟨c, hOld⟩)
      · cases hSame
      · exact (h.returns hCall hPlace hRun hOk (.inr ⟨c, rfl⟩)).2

theorem mem_calls_step {label : Label} (hStep : st.step settings label = some fin) (hMem : (call, place) ∈ st.calls)
    (hDone : ∀ after place', ¬CallEffect st.shared place after place') : (call, place) ∈ fin.calls := by
  obtain ⟨input, shared, run, -, -, rfl⟩ | ⟨c, -, rfl⟩ |
    ⟨n, input, c, before, shared, place', timers, -, hCall, hPlace, -, rfl⟩ | ⟨c, code, -, -, rfl⟩ := step_cases hStep
  · exact hMem
  · exact List.mem_append_left _ hMem
  · refine List.mem_append_left _ ?_
    obtain ⟨m, hm⟩ := List.mem_iff_getElem?.mp hMem
    rcases eq_or_ne n m with rfl | hNe
    · obtain ⟨rfl, rfl⟩ := Prod.mk.inj (Option.some.inj (hm.symm.trans hCall))
      exact (hDone shared place' hPlace).elim
    · exact List.mem_iff_getElem?.mpr ⟨m, (List.getElem?_set_ne hNe).trans hm⟩
  · exact hMem

theorem killReturned_step {label : Label} (hStep : st.step settings label = some fin) (h : st.killReturned) :
    fin.killReturned := by
  obtain hReturned | ⟨c, hShot⟩ := h
  · refine .inl (mem_calls_step hStep hReturned ?_)
    intro after place' hEffect
    cases hEffect
  · refine .inr ⟨c, mem_calls_step hStep hShot ?_⟩
    intro after place' hEffect
    cases hEffect

/-- After a `kill` returned: every child that ran then or was started since was sent a hard kill, or will be as the
run thread registers it. -/
def KillKept (mid fin : System) : Prop :=
  ∀ child < fin.shared.children.length,
    mid.shared.running child = true ∨ mid.shared.children.length ≤ child → Sent true child fin

theorem KillKept.of_reaches (h : KillsStand mid) (hReturned : mid.killReturned)
    (hReaches : ReachesWhile (System.step settings) (fun st label => killsHit st label = true) mid fin) :
    KillKept mid fin := by
  intro child hBound hChild
  have hKeeps (st fin : System) (label : Label) (hStands : KillsStand st ∧ st.killReturned)
      (hOk : killsHit st label = true) (hStep : st.step settings label = some fin) :
      KillsStand fin ∧ fin.killReturned :=
    ⟨hStands.1.step hOk hStep, killReturned_step hStep hStands.2⟩
  refine Sent.reaches hKeeps ?_ hReaches ⟨h, hReturned⟩ (h.sent hReturned) hBound hChild
  intro st input phase child hStands hOk hRun
  exact hStands.1.asked hStands.2 hOk hRun

/-! ## All together -/

/-- No cancel is lost and a job ends once, in every run. The relay delivers one cancel where no job is bound again
after it, and no hard kill is lost where each hits. -/
theorem stops_kept (settings : Settings) :
    (∀ mid fin, Reaches (System.step settings) .init mid → Reaches (System.step settings) mid fin →
      (mid.cancelReturned → CancelKept mid fin) ∧ DoneOnce mid fin) ∧
    (∀ fin, ReachesWhile (System.step settings) (fun st label => bindsOnce st label = true) .init fin →
      DeliveredOnce fin) ∧
    ∀ mid fin, ReachesWhile (System.step settings) (fun st label => killsHit st label = true) .init mid →
      ReachesWhile (System.step settings) (fun st label => killsHit st label = true) mid fin →
      mid.killReturned → KillKept mid fin := by
  refine ⟨fun mid fin hMid hFin => ?_, fun fin => DeliveredOnce.of_reaches, fun mid fin hMid hFin hReturned => ?_⟩
  · have hStands := CancelsStand.reaches hMid
    exact ⟨fun hReturned => .of_reaches hStands hReturned hFin, .of_reaches hStands.held hFin⟩
  · have hStands : KillsStand mid :=
      hMid.keeps (fun _ _ _ h hOk hStep => h.step hOk hStep) ⟨.init, nofun, nofun, nofun, nofun⟩
    exact .of_reaches hStands hReturned hFin

/-- A request and a kill that come while the run is started: its registration shoots it. -/
theorem stops_kept_registering : ∃ mid fin : System, mid.cancelReturned ∧ mid.killReturned ∧
    fin.shared.signalsOf 0 = [.kill] ∧ CancelKept mid fin ∧ KillKept mid fin ∧ DeliveredOnce fin := by
  let calls : List (Call × Place) := [(.bind, .returned), (.request, .answered true), (.kill, .returned)]
  let mid : System := ⟨⟨⟨true, true, false⟩, ⟨false, none, true, none, false, true⟩, [⟨none, []⟩]⟩, .registering .run 0, calls⟩
  let fin : System :=
    ⟨⟨⟨true, true, false⟩, ⟨true, some (-9), true, none, false, true⟩, [⟨some (-9), [.kill]⟩]⟩, .returned, calls⟩
  let settings : Settings := ⟨false, false, true⟩
  let ok (st : System) (label : Label) : Prop := killsHit st label = true ∧ bindsOnce st label = true
  have hMid : ReachesWhile (System.step settings) ok .init mid := by
    refine @ReachesWhile.of_run _ _ _ _ (fun _ _ => instDecidableAnd) [.call .bind, .step 0 true, .run true, .run true,
      .call .request, .step 1 true, .step 1 true, .call .kill, .step 2 true, .step 2 true] _ _ ?_
    rfl
  have hFin : ReachesWhile (System.step settings) ok mid fin := by
    refine @ReachesWhile.of_run _ _ _ _ (fun _ _ => instDecidableAnd)
      [.run true, .run true, .exit 0 (-9), .run true, .run true] _ _ ?_
    rfl
  obtain ⟨hCancels, hDelivers, hKills⟩ := stops_kept settings
  have hCancelled : mid.cancelReturned := ⟨.request, by decide⟩
  have hKilled : mid.killReturned := .inl (by decide)
  refine ⟨mid, fin, hCancelled, hKilled, rfl, ?_, ?_, ?_⟩
  · exact (hCancels mid fin hMid.reaches hFin.reaches).1 hCancelled
  · exact hKills mid fin (hMid.mono fun _ _ hOk => hOk.1) (hFin.mono fun _ _ hOk => hOk.1) hKilled
  · exact hDelivers fin ((hMid.trans hFin).mono fun _ _ hOk => hOk.2)

/-- The build exits with 0 between the look of a `kill` and its signal, and the run that follows is not shot. -/
theorem kill_misses_run : ¬∀ settings mid fin, Reaches (System.step settings) .init mid → mid.killReturned →
    Reaches (System.step settings) mid fin → KillKept mid fin := by
  intro h
  let calls : List (Call × Place) := [(.bind, .returned), (.kill, .shot 0)]
  let mid : System :=
    ⟨⟨⟨true, false, false⟩, ⟨false, none, false, some 0, false, false⟩, [⟨some 0, [.kill]⟩]⟩, .reading .build 0, calls⟩
  let fin : System :=
    ⟨⟨⟨true, false, false⟩, ⟨false, none, false, some 1, false, false⟩, [⟨some 0, [.kill]⟩, ⟨none, []⟩]⟩,
      .reading .run 1, calls⟩
  have hMid : Reaches (System.step ⟨false, true, false⟩) .init mid := by
    refine @ReachesWhile.of_run _ _ _ _ (fun _ _ => instDecidableTrue) [.call .bind, .step 0 true, .run true, .run true,
      .run true, .call .kill, .step 1 true, .step 1 true, .exit 0 0, .step 1 true] _ _ ?_
    rfl
  have hFin : Reaches (System.step ⟨false, true, false⟩) mid fin := by
    refine @ReachesWhile.of_run _ _ _ _ (fun _ _ => instDecidableTrue) [.run true, .run true, .run true, .run true] _ _ ?_
    rfl
  have hKilled : mid.killReturned := .inr ⟨0, by decide⟩
  obtain hStops | ⟨s, hMem, -⟩ := h _ mid fin hMid hKilled hFin 1 (by decide) (.inr (by decide))
  · cases hStops
  · cases hMem

end Bajutsu.Serve.JobCancel
