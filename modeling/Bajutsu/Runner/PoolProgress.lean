import Bajutsu.Runner.PoolRuns

/-!
# A lease that waits

No lease waits for a device that will not come back: while one waits, a device is free, or another lease has it and
comes to its end by its own statements.
-/

namespace Bajutsu.Runner.Pool

open Interleaving PyValue

variable {network : Bool} {st fin : System} {udids : List String} {collectors : List (String × Nat)}

/-- What the calls of a lease give where all goes well and no device is replaced. -/
def quiet : (c : Ext) → Value c
  | .selectActuatorForScenario => "xcuitest"
  | .environmentFor .. => (0 : Nat)
  | .capabilitiesForRun .. => ()
  | .evidenceProviders _ => (none : Option String)
  | .requestedIntervals => false
  | .recordsVideoUpFront _ => false
  | .reserveVideoDir => ()
  | .observesNetworkViaDriver _ => false
  | .networkCollector .. => Collector.mk 0 true
  | .collectorEnv _ => ()
  | .bridgeCollector .. => (0 : Nat)
  | .allocWebviewBridge _ => (1 : Nat)
  | .allocZorder _ => ()
  | .resolvePreconditions => ()
  | .launchDriver .. => (0 : Nat)
  | .replacedDevice _ => (none : Option String)
  | .deviceCatalog _ => ()
  | .hasReusableResident _ => true
  | .fileSink .. => ()
  | .hookCollector .. => Collector.mk 1 false
  | .relauncher .. => ()
  | .controller _ => ()
  | .releaseBridge _ => ()
  | .stopCollector _ => ()
  | .endLease .. => ()
  | .teardown .. => ()
  | .takeCrashSnapshot _ => ()

def quietWorld : World := fun c => .ok (quiet c)

/-- The steps that no call leaves unhandled, and whose replacements are new. -/
def Kept (network : Bool) (st : System) (label : Label World Unit) : Prop :=
  Handled network st label ∧ Fresh network st label

theorem kept_quiet (thread : Nat) : Kept network st (.run thread quietWorld) := by
  constructor
  · rintro _ _ _ _ _ _ ⟨⟩ _ _ site c failure _ hReply
    cases hReply
  · rintro _ _ _ _ _ _ _ _ ⟨⟩ _ _ hReply
    cases hReply

theorem step_stmt {thread : Nat} {call : Unit} {s : Statement} {rest : Reply s → Program}
    (hThread : st.threads[thread]? = some (call, .running (.stmt s rest))) (world : World) :
    (pool network).step st (.run thread world) = some ⟨(exec s world st.shared).1,
      st.threads.set thread (call, .running (rest (exec s world st.shared).2)),
      st.history ++ [⟨thread, world, s, (exec s world st.shared).2⟩]⟩ := by
  rw [Machine.step, hThread]
  rfl

/-- A lease that has its device comes to its end by its own statements, whatever the others do. -/
theorem runs_to_end (p : Program) {thread : Nat} {call : Unit}
    (hThread : st.threads[thread]? = some (call, .running p)) :
    ∃ fin result, (pool network).ReachesWhile (Kept network) st fin ∧
      fin.threads[thread]? = some (call, .running (.ret result)) ∧ fin.threads.length = st.threads.length ∧
      ∀ other, other ≠ thread → fin.threads[other]? = st.threads[other]? ∧ held fin other = held st other := by
  induction p generalizing st with
  | ret result => exact ⟨st, result, .refl _, hThread, rfl, fun _ _ => ⟨rfl, rfl⟩⟩
  | stmt s rest ih =>
    have hStep := @step_stmt network st thread call s rest hThread quietWorld
    have hLess := (List.getElem?_eq_some_iff.mp hThread).1
    generalize hMid : Config.mk _ _ _ = mid at hStep
    have hThreads : mid.threads = st.threads.set thread (call, .running (rest (exec s quietWorld st.shared).2)) := by
      rw [← hMid]
    have hHistory : mid.history = st.history ++ [⟨thread, quietWorld, s, (exec s quietWorld st.shared).2⟩] := by
      rw [← hMid]
    obtain ⟨fin, result, hReach, hFin, hLength, hOthers⟩ := ih (exec s quietWorld st.shared).2
      (by rw [hThreads, List.getElem?_set_self hLess])
    refine ⟨fin, result, ((Machine.ReachesWhile.refl st).tail (kept_quiet thread) hStep).trans hReach, hFin, ?_, ?_⟩
    · rw [hLength, hThreads, List.length_set]
    · intro other hNe
      obtain ⟨hSame, hHeld⟩ := hOthers other hNe
      constructor
      · rw [hSame, hThreads, List.getElem?_set_ne (Ne.symm hNe)]
      · rw [hHeld]
        exact held_other hHistory (Ne.symm hNe)

theorem takes_free {thread : Nat} {call : Unit} (hThread : st.threads[thread]? = some (call, .waiting))
    (hFree : st.shared.free ≠ []) :
    ∃ fin p, (pool network).ReachesWhile (Kept network) st fin ∧ fin.threads[thread]? = some (call, .running p) := by
  obtain ⟨udid, free, hFree⟩ := List.exists_cons_of_ne_nil hFree
  have hStep : (pool network).step st (.run thread quietWorld) = some ⟨{ st.shared with free := free },
      st.threads.set thread (call, .running (lease network udid)), st.history ++ [⟨thread, quietWorld, .get, some udid⟩]⟩ := by
    rw [Machine.step, hThread]
    simp only [pool, next, exec_get_cons hFree]
  refine ⟨_, lease network udid, (Machine.ReachesWhile.refl st).tail (kept_quiet thread) hStep, ?_⟩
  exact List.getElem?_set_self (List.getElem?_eq_some_iff.mp hThread).1

theorem exists_holder (h : (pool network).ReachesWhile (Handled network) (.init (.init udids collectors)) st)
    (hUdids : udids ≠ []) (hFree : st.shared.free = []) :
    ∃ holder call p device, st.threads[holder]? = some (call, .running p) ∧ held st holder = some device := by
  have hLength := handled_length h
  rw [hFree, List.append_nil] at hLength
  have hHeld : heldDevices st ≠ [] := by
    rw [← List.length_pos_iff, hLength]
    exact List.length_pos_iff.mpr hUdids
  obtain ⟨device, devices, hHeld⟩ := List.exists_cons_of_ne_nil hHeld
  have hMem : device ∈ heldDevices st := by
    rw [hHeld]
    exact List.mem_cons_self
  obtain ⟨holder, hRange, hDevice⟩ := List.mem_filterMap.mp hMem
  have hLess := List.mem_range.mp hRange
  obtain ⟨⟨call, p⟩, hThread⟩ : ∃ at_, st.threads[holder]? = some at_ := ⟨_, List.getElem?_eq_getElem hLess⟩
  have hTracks := (handled_sound h).2.tracks holder call p hThread
  rw [hDevice] at hTracks
  cases p with
  | waiting => cases hTracks
  | running p => exact ⟨holder, call, p, device, hThread, hDevice⟩

/-- A lease that waits is not blocked: it can always come to have a device. -/
theorem waiting_goes_on (h : (pool network).ReachesWhile (Handled network) (.init (.init udids collectors)) st)
    (hUdids : udids ≠ []) {thread : Nat} {call : Unit} (hThread : st.threads[thread]? = some (call, .waiting)) :
    ∃ fin p, (pool network).ReachesWhile (Kept network) st fin ∧ fin.threads[thread]? = some (call, .running p) := by
  by_cases hFree : st.shared.free = []
  · obtain ⟨holder, call', p, device, hHolder, hDevice⟩ := exists_holder h hUdids hFree
    have hNe : thread ≠ holder := by
      rintro rfl
      cases hThread.symm.trans hHolder
    obtain ⟨mid, result, hReach, hEnd, hCount, hOthers⟩ := @runs_to_end network st p holder call' hHolder
    have hMid := h.trans (hReach.mono fun _ _ => And.left)
    have hNone : held mid holder = none := (handled_sound hMid).2.tracks holder call' _ hEnd
    obtain ⟨others, hBefore, hAfter⟩ := exists_others (List.getElem?_eq_some_iff.mp hHolder).1
      fun other hNe => (hOthers other hNe).2
    have hMidFree : mid.shared.free ≠ [] := by
      intro hMidFree
      have hLength := handled_length h
      have hMidLength := handled_length hMid
      rw [hFree, List.append_nil, heldDevices, hBefore.length_eq, hDevice, Option.toList_some] at hLength
      rw [hMidFree, List.append_nil, heldDevices, hCount, hAfter.length_eq, hNone, Option.toList_none] at hMidLength
      simp only [List.length_append, List.length_cons, List.length_nil] at hLength hMidLength
      omega
    have hWaiting : mid.threads[thread]? = some (call, .waiting) := (hOthers thread hNe).1.trans hThread
    obtain ⟨fin, p, hTakes, hFin⟩ := takes_free hWaiting hMidFree
    exact ⟨fin, p, hReach.trans hTakes, hFin⟩
  · exact takes_free hThread hFree

/-! ## Every run -/

/-- A lease that has its device and has not come to its end. -/
def Place.Outstanding : Place → Prop
  | .running (.stmt ..) => True
  | _ => False

theorem heldDevices_idle (hSound : Sound st)
    (hIdle : ∀ lease ∈ st.threads, ¬lease.2.Outstanding) : heldDevices st = [] := by
  apply List.filterMap_eq_nil_iff.mpr
  intro thread hMem
  have hLess := List.mem_range.mp hMem
  obtain ⟨⟨call, p⟩, hThread⟩ : ∃ at_, st.threads[thread]? = some at_ := ⟨_, List.getElem?_eq_getElem hLess⟩
  have hTracks := hSound.tracks thread call p hThread
  cases p with
  | waiting => exact hTracks
  | running p =>
    cases p with
    | ret result => exact hTracks
    | stmt s rest => exact absurd trivial (hIdle _ (List.mem_of_getElem? hThread))

/-- In every run whose calls raise only where a lease handles it, the pool's devices are conserved, no lease is
blocked, and where a replacement is a new device, no device is free and leased, or free twice. -/
theorem devices_conserved
    (h : (pool network).ReachesWhile (Handled network) (.init (.init udids collectors)) st) :
    (∀ (thread : Nat) (call : Unit) (p : Place), st.threads[thread]? = some (call, p) →
      Ledger (Machine.eventsOf thread st.history) p ∧
        ∀ result, p = .running (.ret result) → Returned (Machine.eventsOf thread st.history)) ∧
    (heldDevices st ++ st.shared.free).length = udids.length ∧
    ((∀ lease ∈ st.threads, ¬lease.2.Outstanding) → st.shared.free.length = udids.length) ∧
    (udids ≠ [] → ∀ (thread : Nat) (call : Unit), st.threads[thread]? = some (call, .waiting) →
      ∃ fin p, (pool network).ReachesWhile (Handled network) st fin ∧ fin.threads[thread]? = some (call, .running p)) ∧
    ((pool network).ReachesWhile (Kept network) (.init (.init udids collectors)) st → udids.Nodup →
      (heldDevices st ++ st.shared.free).Nodup) := by
  have hSound := (handled_sound h).2
  refine ⟨?_, handled_length h, ?_, ?_, fresh_nodup⟩
  · intro thread call p hThread
    refine ⟨hSound.ledger thread call p hThread, ?_⟩
    rintro result rfl
    exact (hSound.ledger thread call _ hThread).returned (hSound.tracks thread call _ hThread)
  · intro hIdle
    have hLength := handled_length h
    rwa [heldDevices_idle hSound hIdle, List.nil_append] at hLength
  · intro hUdids thread call hThread
    obtain ⟨fin, p, hReach, hFin⟩ := waiting_goes_on h hUdids hThread
    exact ⟨fin, p, hReach.mono fun _ _ => And.left, hFin⟩

/-- The step's call raises only where it is handled, and reports no replacement. -/
def plainStep (network : Bool) (st : System) : Label World Unit → Bool
  | .call _ => true
  | .run thread world =>
    match st.threads[thread]?.bind fun at_ => next network at_.2 with
    | some ⟨.call site (.replacedDevice env), _⟩ =>
      let reply : Except Failure (Option String) := world (.replacedDevice env)
      match reply with
      | .error _ => site == .inTry || site == .guarded
      | .ok replacement => replacement.isNone
    | some ⟨.call site c, _⟩ => (world c).toOption.isSome || site == .inTry || site == .guarded
    | _ => true

theorem kept_of_plainStep {label : Label World Unit} (h : plainStep network st label = true) : Kept network st label := by
  constructor
  · rintro thread world call p s rest rfl hThread hNext site c failure rfl hReply
    rw [plainStep, hThread, Option.bind_some, hNext] at h
    cases c with
    | replacedDevice env =>
      simp only [hReply] at h
      simpa using h
    | _ =>
      simp only [hReply] at h
      simpa [Except.toOption] using h
  · rintro thread world call p site env rest replacement rfl hThread hNext hReply
    rw [plainStep, hThread, Option.bind_some, hNext] at h
    simp only [hReply] at h
    cases h

def launchRaises : World
  | .launchDriver .. => .error .defect
  | c => quietWorld c

/-- A pool of two devices, the first of which a lease takes that fails to launch. -/
def failedLaunch : System :=
  (pool false).after (.init (.init ["A", "B"] [])) (.call () :: List.replicate 19 (.run 0 launchRaises))

theorem devices_conserved_failed_launch :
    failedLaunch.shared.free = ["B", "A"] ∧ (heldDevices failedLaunch ++ failedLaunch.shared.free).length = 2 ∧
      (heldDevices failedLaunch ++ failedLaunch.shared.free).Nodup := by
  have hRun : (pool false).ReachesWhile (Kept false) (.init (.init ["A", "B"] [])) failedLaunch :=
    @Machine.ReachesWhile.of_run _ _ _ _ _ _ (pool false) _ (plainStep false) (fun _ _ => kept_of_plainStep)
      (.call () :: List.replicate 19 (.run 0 launchRaises)) _ _ rfl
  obtain ⟨-, hLength, -, -, hNodup⟩ := devices_conserved (hRun.mono fun _ _ => And.left)
  exact ⟨rfl, hLength, hNodup hRun (by decide)⟩

/-- Where every lease waits or is at an end, and no device is free, every lease that waits is blocked. -/
theorem idle_stuck (hFree : st.shared.free = []) (hIdle : ∀ lease ∈ st.threads, ¬lease.2.Outstanding)
    (h : (pool network).Reaches st fin) :
    (fin.shared.free = [] ∧ ∀ lease ∈ fin.threads, ¬lease.2.Outstanding) ∧
      ∀ (thread : Nat) (call : Unit), st.threads[thread]? = some (call, .waiting) →
        fin.threads[thread]? = some (call, .waiting) := by
  apply h.keeps
  · rintro mid fin label - ⟨⟨hFree, hIdle⟩, hWaiting⟩ hStep
    rcases Machine.step_event hStep with ⟨call, -, rfl⟩ | ⟨thread, world, call, p, s, rest, -, hThread, hNext, rfl⟩
    · refine ⟨⟨hFree, ?_⟩, ?_⟩
      · intro lease hMem
        rcases List.mem_append.mp hMem with hOld | hNew
        · exact hIdle lease hOld
        · rw [List.mem_singleton.mp hNew]
          exact id
      · intro thread call' hStart
        have hLess := (List.getElem?_eq_some_iff.mp (hWaiting thread call' hStart)).1
        exact (List.getElem?_append_left hLess).trans (hWaiting thread call' hStart)
    · obtain rfl : p = .waiting := by
        cases p with
        | waiting => rfl
        | running p =>
          cases p with
          | ret result => cases hNext
          | stmt s rest => exact absurd trivial (hIdle _ (List.mem_of_getElem? hThread))
      cases hNext
      obtain ⟨hLess, hAt⟩ := List.getElem?_eq_some_iff.mp hThread
      have hSame : mid.threads.set thread (call, .waiting) = mid.threads := by
        rw [← hAt, List.set_getElem_self]
      simp only [pool, exec_get_nil hFree, hSame]
      exact ⟨⟨hFree, hIdle⟩, hWaiting⟩
  · exact ⟨⟨hFree, hIdle⟩, fun _ _ hThread => hThread⟩

def selectionRaises : World
  | .selectActuatorForScenario => .error .defect
  | c => quietWorld c

/-- A pool of one device, which a lease takes that has no actuator to select. -/
def failedSelection : System :=
  (pool false).after (.init (.init ["A"] [])) [.call (), .run 0 selectionRaises, .run 0 selectionRaises, .call ()]

/-- The device of the lease that raised is never free again, and the next lease is blocked for good. -/
theorem raised_selection_blocks :
    (pool false).Reaches (.init (.init ["A"] [])) failedSelection ∧
      failedSelection.threads.map Prod.snd = [.running (.ret (.raised .defect)), .waiting] ∧
      ¬∃ fin, (pool false).Reaches failedSelection fin ∧
        (fin.shared.free ≠ [] ∨ fin.threads[1]? ≠ some ((), .waiting)) := by
  refine ⟨Machine.Reaches.after rfl, rfl, ?_⟩
  rintro ⟨fin, hReach, hFin⟩
  have hIdle : ∀ lease ∈ failedSelection.threads, ¬lease.2.Outstanding := by
    change ∀ lease ∈ [((), .running (.ret (.raised .defect))), ((), .waiting)], ¬Place.Outstanding lease.2
    simp [Place.Outstanding]
  obtain ⟨⟨hFree, -⟩, hWaiting⟩ := idle_stuck rfl hIdle hReach
  exact hFin.elim (absurd hFree) (absurd (hWaiting 1 () rfl))

end Bajutsu.Runner.Pool
