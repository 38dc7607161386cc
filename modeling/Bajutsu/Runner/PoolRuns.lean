import Bajutsu.Runner.PoolConserved

/-!
# The pool over whole runs

The free devices and those that the leases have are as many as the pool began with. A lease takes one device and
puts one back, the last replacement that was reported for it or the device itself.
-/

namespace Bajutsu.Runner.Pool

open Interleaving PyValue
open scoped List

/-- The device a lease has, by the statements it ran. -/
def deviceOf (events : List Ran) : Option String :=
  events.foldl (fun device event => holds device event.stmt event.reply) none

def held (st : System) (thread : Nat) : Option String := deviceOf (Machine.eventsOf thread st.history)

def heldDevices (st : System) : List String := (List.range st.threads.length).filterMap (held st)

def taken : Ran → Option String
  | ⟨_, _, .get, udid⟩ => udid
  | _ => none

def givenBack : Ran → Option String
  | ⟨_, _, .put udid, _⟩ => some udid
  | _ => none

/-- The replacement that an event reported. -/
def reported : Ran → Option String
  | ⟨_, _, .call _ (.replacedDevice _), reply⟩ =>
    let reply : Except Failure (Option String) := reply
    match reply with
    | .ok replacement => replacement
    | .error _ => none
  | _ => none

variable {network : Bool} {st fin : System} {device : Option String}

/-- No call raises where nothing handles it: before the `try` of `lease`, or at the start of `release`. -/
def Handled (network : Bool) (st : System) (label : Label World Unit) : Prop :=
  ∀ thread world call p s rest, label = .run thread world → st.threads[thread]? = some (call, p) →
    next network p = some ⟨s, rest⟩ → ∀ site c failure, s = .call site c → world c = .error failure →
    site = .inTry ∨ site = .guarded

/-- A replacement that is reported is new to the pool, or is the device that the lease has. -/
def Fresh (network : Bool) (st : System) (label : Label World Unit) : Prop :=
  ∀ thread world call p site env rest replacement, label = .run thread world →
    st.threads[thread]? = some (call, p) → next network p = some ⟨.call site (.replacedDevice env), rest⟩ →
    world (.replacedDevice env) = .ok (some replacement) →
    held st thread = some replacement ∨ (replacement ∉ st.shared.free ∧ replacement ∉ heldDevices st)

/-! ## One lease -/

/-- A lease that waits has taken nothing, and one that runs has its device or has put it back. -/
def Place.Tracks : Option String → Place → Prop
  | device, .waiting => device = none
  | device, .running p => Pool.Tracks device p

/-- What a lease has taken and put back, by the statements it ran. -/
def Ledger (events : List Ran) : Place → Prop
  | .waiting => events.filterMap taken = [] ∧ events.filterMap givenBack = [] ∧ events.filterMap reported = []
  | .running _ => ∃ udid, events.filterMap taken = [udid] ∧
      match deviceOf events with
      | some device => events.filterMap givenBack = [] ∧ device = (events.filterMap reported).getLastD udid
      | none => events.filterMap givenBack = [(events.filterMap reported).getLastD udid]

/-- The lease took one device and put one back: the last replacement that was reported for it, or itself. -/
def Returned (events : List Ran) : Prop :=
  ∃ udid, events.filterMap taken = [udid] ∧
    events.filterMap givenBack = [(events.filterMap reported).getLastD udid]

theorem deviceOf_append (events : List Ran) (event : Ran) :
    deviceOf (events ++ [event]) = holds (deviceOf events) event.stmt event.reply := by
  rw [deviceOf, List.foldl_append]
  rfl

theorem Ledger.skip {events : List Ran} {p p' : Program} {event : Ran} (h : Ledger events (.running p))
    (hTaken : taken event = none) (hGivenBack : givenBack event = none) (hReported : reported event = none)
    (hHolds : holds (deviceOf events) event.stmt event.reply = deviceOf events) :
    Ledger (events ++ [event]) (.running p') := by
  simp only [Ledger, Machine.filterMap_concat, hTaken, hGivenBack, hReported, Option.toList_none, List.append_nil,
    deviceOf_append, hHolds]
  exact h

theorem Ledger.replaced {events : List Ran} {p p' : Program} {device replacement : String}
    (h : Ledger events (.running p)) (hDevice : deviceOf events = some device) (thread : Nat) (world : World)
    (site : Site) (env : Nat) :
    Ledger (events ++ [⟨thread, world, .call site (.replacedDevice env), .ok (some replacement)⟩]) (.running p') := by
  obtain ⟨first, hTaken, hGiven⟩ := h
  rw [hDevice] at hGiven
  obtain ⟨hNone, -⟩ := hGiven
  refine ⟨first, ?_, ?_⟩
  · rw [Machine.filterMap_concat, hTaken]
    rfl
  · rw [deviceOf_append, hDevice, Machine.filterMap_concat, Machine.filterMap_concat, hNone]
    constructor
    · rfl
    · exact (List.getLastD_concat ..).symm

theorem Ledger.put {events : List Ran} {p p' : Program} {udid : String} (h : Ledger events (.running p))
    (hDevice : deviceOf events = some udid) (thread : Nat) (world : World) :
    Ledger (events ++ [⟨thread, world, .put udid, ()⟩]) (.running p') := by
  obtain ⟨first, hTaken, hGiven⟩ := h
  rw [hDevice] at hGiven
  obtain ⟨hNone, hLast⟩ := hGiven
  refine ⟨first, ?_, ?_⟩
  · rw [Machine.filterMap_concat, hTaken]
    rfl
  · rw [deviceOf_append, hDevice, Machine.filterMap_concat, Machine.filterMap_concat, hNone, hLast]
    exact congrArg (fun xs => [xs.getLastD first]) (List.append_nil _).symm

theorem Ledger.running {events : List Ran} {p p' : Program} (h : Ledger events (.running p)) {thread : Nat}
    {world : World} {s : Statement} {reply : Reply s} (hAllowed : Allowed (deviceOf events) s) :
    Ledger (events ++ [⟨thread, world, s, reply⟩]) (.running p') := by
  cases s with
  | get => exact absurd hAllowed id
  | put udid => exact h.put hAllowed thread world
  | call site c =>
    cases c with
    | replacedDevice env =>
      obtain ⟨device, hDevice⟩ := Option.isSome_iff_exists.mp hAllowed
      change Except Failure (Option String) at reply
      rcases reply with failure | _ | replacement
      · exact h.skip rfl rfl rfl (by rw [hDevice]; rfl)
      · exact h.skip rfl rfl rfl (by rw [hDevice]; rfl)
      · exact h.replaced hDevice thread world site env
    | _ =>
      refine h.skip rfl rfl rfl (holds_plain ?_ (deviceOf events) site reply).2
      exact nofun
  | _ =>
    apply h.skip
    · rfl
    · rfl
    · rfl
    · cases deviceOf events with
      | none => rfl
      | some device => rfl

theorem Ledger.returned {events : List Ran} {result : Result} (h : Ledger events (.running (.ret result)))
    (hTracks : Place.Tracks (deviceOf events) (.running (.ret result))) : Returned events := by
  obtain ⟨udid, hTaken, hGiven⟩ := h
  have hNone : deviceOf events = none := hTracks
  rw [hNone] at hGiven
  exact ⟨udid, hTaken, hGiven⟩

/-! ## The free devices and the leases -/

/-- The device that a lease puts in the place of its own. -/
def Replaces (world : World) : Statement → String → Prop
  | .call _ (.replacedDevice env), replacement => world (.replacedDevice env) = .ok (some replacement)
  | _, _ => False

theorem exec_get_nil {shared : Shared} (hFree : shared.free = []) (world : World) :
    exec .get world shared = (shared, none) := by
  rw [exec, hFree]
  rfl

theorem exec_get_cons {shared : Shared} {udid : String} {free : List String} (hFree : shared.free = udid :: free)
    (world : World) : exec .get world shared = ({ shared with free := free }, some udid) := by
  rw [exec, hFree]
  rfl

theorem exec_moveCollector (udid replacement : String) (world : World) (shared : Shared) :
    (exec (.moveCollector udid replacement) world shared).1.free = shared.free := by
  rw [exec]
  split
  · rfl
  · rfl

/-- A statement moves a device between the free ones and its lease, or the lease's device is replaced. -/
theorem exec_devices {s : Statement} {world : World} {shared : Shared} {device : Option String}
    (hAllowed : Allowed device s ∨ s = .get ∧ device = none) :
    ((holds device s (exec s world shared).2).toList ++ (exec s world shared).1.free).Perm
        (device.toList ++ shared.free) ∨
      ∃ old replacement, device = some old ∧ holds device s (exec s world shared).2 = some replacement ∧
        (exec s world shared).1.free = shared.free ∧ Replaces world s replacement := by
  cases s with
  | get =>
    obtain ⟨-, rfl⟩ := hAllowed.resolve_left id
    cases hFree : shared.free with
    | nil =>
      left
      rw [exec_get_nil hFree, hFree]
      exact .refl _
    | cons udid free =>
      left
      rw [exec_get_cons hFree]
      exact .refl _
  | put udid =>
    obtain rfl : device = some udid := hAllowed.resolve_right (nofun)
    exact .inl (List.perm_append_singleton udid shared.free)
  | call site c =>
    cases c with
    | replacedDevice env =>
      obtain ⟨old, rfl⟩ := Option.isSome_iff_exists.mp (hAllowed.resolve_right (nofun))
      rcases hReply : world (.replacedDevice env) with failure | _ | replacement
      · left
        simp only [exec, hReply]
        rfl
      · left
        simp only [exec, hReply]
        rfl
      · right
        refine ⟨old, replacement, rfl, ?_, rfl, hReply⟩
        simp only [exec, hReply]
        rfl
    | _ =>
      left
      cases device with
      | none => exact .refl _
      | some udid => exact .refl _
  | moveCollector udid replacement =>
    left
    rw [exec_moveCollector]
    cases device with
    | none => exact .refl _
    | some udid => exact .refl _
  | _ =>
    left
    cases device with
    | none => exact .refl _
    | some udid => exact .refl _

theorem exists_others {f g : Nat → Option String} {thread count : Nat} (hThread : thread < count)
    (hOther : ∀ other, other ≠ thread → g other = f other) :
    ∃ others, ((List.range count).filterMap f).Perm ((f thread).toList ++ others) ∧
      ((List.range count).filterMap g).Perm ((g thread).toList ++ others) := by
  have hPerm : (List.range count).Perm (thread :: (List.range count).erase thread) :=
    List.perm_cons_erase (List.mem_range.mpr hThread)
  have hSame : ((List.range count).erase thread).filterMap g = ((List.range count).erase thread).filterMap f := by
    apply List.filterMap_congr
    intro other hMem
    exact hOther other (List.nodup_range.mem_erase_iff.mp hMem).1
  have hSplit : ∀ h : Nat → Option String, ((List.range count).filterMap h).Perm
      ((h thread).toList ++ ((List.range count).erase thread).filterMap h) := by
    intro h
    refine (hPerm.filterMap h).trans ?_
    cases hValue : h thread with
    | none => rw [List.filterMap_cons_none hValue]; rfl
    | some value => rw [List.filterMap_cons_some hValue]; rfl
  refine ⟨((List.range count).erase thread).filterMap f, hSplit f, ?_⟩
  rw [← hSame]
  exact hSplit g

theorem allowed_next {p : Place} {s : Statement} {rest : Reply s → Place} (h : p.Tracks device)
    (hNext : next network p = some ⟨s, rest⟩) : Allowed device s ∨ s = .get ∧ device = none := by
  cases p with
  | waiting =>
    cases hNext
    exact .inr ⟨rfl, h⟩
  | running p =>
    cases p with
    | ret result => cases hNext
    | stmt s' rest' =>
      cases hNext
      exact .inl h.1

theorem tracks_next {p : Place} {s : Statement} {rest : Reply s → Place} (h : p.Tracks device)
    (hNext : next network p = some ⟨s, rest⟩) {reply : Reply s} (hLeaks : ¬Leaks s reply) :
    (rest reply).Tracks (holds device s reply) := by
  cases p with
  | waiting =>
    cases hNext
    change Option String at reply
    cases reply with
    | none => rfl
    | some udid => exact tracks_lease udid
  | running p =>
    cases p with
    | ret result => cases hNext
    | stmt s' rest' =>
      cases hNext
      exact h.2 reply hLeaks

theorem Ledger.waiting {events : List Ran} (h : Ledger events .waiting) (thread : Nat) (world : World)
    (reply : Option String) :
    Ledger (events ++ [⟨thread, world, .get, reply⟩])
      (match reply with
      | none => .waiting
      | some udid => .running (lease network udid)) := by
  obtain ⟨hTaken, hGiven, hReported⟩ := h
  cases reply with
  | none =>
    refine ⟨?_, ?_, ?_⟩
    · rw [Machine.filterMap_concat, hTaken]
      rfl
    · rw [Machine.filterMap_concat, hGiven]
      rfl
    · rw [Machine.filterMap_concat, hReported]
      rfl
  | some udid =>
    refine ⟨udid, ?_, ?_⟩
    · rw [Machine.filterMap_concat, hTaken]
      rfl
    · rw [deviceOf_append, Machine.filterMap_concat, Machine.filterMap_concat, hGiven, hReported]
      exact ⟨rfl, rfl⟩

theorem ledger_next {events : List Ran} {p : Place} {s : Statement} {rest : Reply s → Place}
    (hLedger : Ledger events p) (hTracks : p.Tracks (deviceOf events)) (hNext : next network p = some ⟨s, rest⟩)
    (thread : Nat) (world : World) (reply : Reply s) : Ledger (events ++ [⟨thread, world, s, reply⟩]) (rest reply) := by
  cases p with
  | waiting =>
    cases hNext
    exact hLedger.waiting thread world reply
  | running p =>
    cases p with
    | ret result => cases hNext
    | stmt s' rest' =>
      cases hNext
      exact hLedger.running hTracks.1

/-- Every lease has the device that its statements gave it, and every statement of a lease is allowed to it. -/
structure Sound (st : System) : Prop where
  tracks : ∀ thread call p, st.threads[thread]? = some (call, p) → Place.Tracks (held st thread) p
  ledger : ∀ thread call p, st.threads[thread]? = some (call, p) → Ledger (Machine.eventsOf thread st.history) p

theorem held_self {fin : System} {event : Ran} (h : fin.history = st.history ++ [event]) {thread : Nat}
    (hThread : event.thread = thread) : held fin thread = holds (held st thread) event.stmt event.reply := by
  rw [held, h, Machine.eventsOf_self st.history hThread, deviceOf_append, held]

theorem held_other {fin : System} {event : Ran} (h : fin.history = st.history ++ [event]) {other : Nat}
    (hOther : event.thread ≠ other) : held fin other = held st other := by
  rw [held, h, Machine.eventsOf_other _ hOther, held]

theorem heldDevices_run {fin : System} {event : Ran} (hHistory : fin.history = st.history ++ [event])
    (hLength : fin.threads.length = st.threads.length) (hThread : event.thread < st.threads.length) :
    ∃ others, (heldDevices st).Perm ((held st event.thread).toList ++ others) ∧
      (heldDevices fin).Perm ((holds (held st event.thread) event.stmt event.reply).toList ++ others) := by
  obtain ⟨others, hBefore, hAfter⟩ := exists_others hThread fun other hOther => held_other hHistory (Ne.symm hOther)
  rw [held_self hHistory rfl, ← hLength] at hAfter
  exact ⟨others, hBefore, hAfter⟩

theorem step_devices {label : Label World Unit} (hThreads : Machine.Sound (pool network) st) (hSound : Sound st)
    (hStep : (pool network).step st label = some fin) :
    (heldDevices fin ++ fin.shared.free).Perm (heldDevices st ++ st.shared.free) ∨
      ∃ thread world call p s rest old replacement others, label = .run thread world ∧
        st.threads[thread]? = some (call, p) ∧ next network p = some ⟨s, rest⟩ ∧ Replaces world s replacement ∧
        held st thread = some old ∧ (heldDevices st ++ st.shared.free).Perm (old :: others) ∧
        (heldDevices fin ++ fin.shared.free).Perm (replacement :: others) := by
  rcases Machine.step_event hStep with ⟨call, -, rfl⟩ | ⟨thread, world, call, p, s, rest, rfl, hThread, hNext, rfl⟩
  · left
    have hNew : held st st.threads.length = none := by
      rw [held, Machine.eventsOf_of_lt hThreads (le_refl _)]
      rfl
    rw [heldDevices, List.length_append, List.length_singleton, List.range_succ, Machine.filterMap_concat]
    change (_ ++ (held st st.threads.length).toList ++ _).Perm _
    rw [hNew, Option.toList_none, List.append_nil]
    exact .refl _
  · have hLess := (List.getElem?_eq_some_iff.mp hThread).1
    generalize hFin : Config.mk _ _ _ = fin
    have hHistory : fin.history = st.history ++ [⟨thread, world, s, (exec s world st.shared).2⟩] := by
      rw [← hFin]
      rfl
    have hShared : fin.shared = (exec s world st.shared).1 := by
      rw [← hFin]
      rfl
    have hLength : fin.threads.length = st.threads.length := by
      rw [← hFin]
      exact List.length_set
    obtain ⟨others, hBefore, hAfter⟩ := heldDevices_run hHistory hLength hLess
    rcases exec_devices (allowed_next (hSound.tracks thread call p hThread) hNext) with
      hPerm | ⟨old, replacement, hOld, hNew, hFree, hReplaces⟩
    · left
      have hSwap : ∀ xs ys : List String, (xs ++ others ++ ys).Perm (xs ++ ys ++ others) := by
        intro xs ys
        rw [List.append_assoc, List.append_assoc]
        exact List.perm_append_comm.append_left xs
      rw [← hShared] at hPerm
      calc heldDevices fin ++ fin.shared.free
        _ ~ _ ++ others ++ fin.shared.free := hAfter.append_right _
        _ ~ _ ++ fin.shared.free ++ others := hSwap _ _
        _ ~ (held st thread).toList ++ st.shared.free ++ others := hPerm.append_right _
        _ ~ (held st thread).toList ++ others ++ st.shared.free := (hSwap _ _).symm
        _ ~ heldDevices st ++ st.shared.free := (hBefore.append_right _).symm
    · right
      refine ⟨thread, world, call, p, s, rest, old, replacement, others ++ st.shared.free, rfl, hThread, hNext, hReplaces,
        hOld, ?_, ?_⟩
      · rw [hOld] at hBefore
        exact hBefore.append_right _
      · rw [hNew] at hAfter
        rw [hShared, hFree]
        exact hAfter.append_right _

/-! ## Runs -/

theorem Sound.init (shared : Shared) : Sound (Config.init shared) := by
  constructor
  · rintro thread call p ⟨⟩
  · rintro thread call p ⟨⟩

theorem Handled.not_leaks {thread : Nat} {world : World} {call : Unit} {p : Place} {s : Statement}
    {rest : Reply s → Place} (h : Handled network st (.run thread world))
    (hThread : st.threads[thread]? = some (call, p)) (hNext : next network p = some ⟨s, rest⟩) :
    ¬Leaks s (exec s world st.shared).2 := by
  intro hLeaks
  cases s with
  | call site c =>
    cases hReply : world c with
    | ok value =>
      rw [exec, hReply] at hLeaks
      exact hLeaks
    | error failure =>
      rw [exec, hReply] at hLeaks
      have hSite := h thread world call p (.call site c) rest rfl hThread hNext site c failure rfl hReply
      rcases hLeaks with rfl | rfl
      · exact absurd hSite (by decide)
      · exact absurd hSite (by decide)
  | _ => exact hLeaks

/-- A step of the pool that no call leaves unhandled keeps every lease's account. -/
theorem Sound.step {label : Label World Unit} (hThreads : Machine.Sound (pool network) st) (hSound : Sound st)
    (hHandled : Handled network st label) (hStep : (pool network).step st label = some fin) : Sound fin := by
  have hAccount : ∀ other call p, fin.threads[other]? = some (call, p) →
      Place.Tracks (held fin other) p ∧ Ledger (Machine.eventsOf other fin.history) p := by
    intro other call p hOther
    rcases Machine.step_event hStep with ⟨call', -, rfl⟩ | ⟨thread, world, call', q, s, rest, rfl, hThread, hNext, rfl⟩
    · rw [List.getElem?_append] at hOther
      split at hOther
      · exact ⟨hSound.tracks other call p hOther, hSound.ledger other call p hOther⟩
      · rename_i hNew
        obtain ⟨rfl, rfl⟩ : call = call' ∧ p = .waiting := by
          simpa [pool] using List.mem_of_getElem? hOther
        have hNone : Machine.eventsOf other st.history = [] := Machine.eventsOf_of_lt hThreads (not_lt.mp hNew)
        rw [held, hNone]
        exact ⟨rfl, rfl, rfl, rfl⟩
    · have hBefore := hSound.tracks thread call' q hThread
      rcases eq_or_ne thread other with rfl | hNe
      · rw [List.getElem?_set_self (List.getElem?_eq_some_iff.mp hThread).1] at hOther
        obtain ⟨rfl, rfl⟩ := Prod.mk.inj (Option.some.inj hOther)
        constructor
        · rw [held, Machine.eventsOf_self, deviceOf_append]
          · exact tracks_next hBefore hNext (hHandled.not_leaks hThread hNext)
          · rfl
        · rw [Machine.eventsOf_self]
          · exact ledger_next (hSound.ledger thread call' q hThread) hBefore hNext thread world (exec s world st.shared).2
          · rfl
      · rw [List.getElem?_set_ne hNe] at hOther
        constructor
        · rw [held, Machine.eventsOf_other st.history hNe]
          exact hSound.tracks other call p hOther
        · rw [Machine.eventsOf_other st.history hNe]
          exact hSound.ledger other call p hOther
  exact ⟨fun other call p h => (hAccount other call p h).1, fun other call p h => (hAccount other call p h).2⟩

variable {udids : List String} {collectors : List (String × Nat)}

theorem handled_sound
    (h : (pool network).ReachesWhile (Handled network) (.init (.init udids collectors)) st) :
    Machine.Sound (pool network) st ∧ Sound st := by
  apply h.keeps
  · rintro st fin label hReach ⟨hThreads, hSound⟩ hHandled hStep
    exact ⟨hThreads.step hStep, hSound.step hThreads hHandled hStep⟩
  · exact ⟨.init _, .init _⟩

theorem handled_length
    (h : (pool network).ReachesWhile (Handled network) (.init (.init udids collectors)) st) :
    (heldDevices st ++ st.shared.free).length = udids.length := by
  induction h with
  | refl => rfl
  | tail h hHandled hStep ih =>
    obtain ⟨hThreads, hSound⟩ := handled_sound h
    rcases step_devices hThreads hSound hStep with
      hPerm | ⟨_, _, _, _, _, _, _, _, _, -, -, -, -, -, hBefore, hAfter⟩
    · rw [hPerm.length_eq]
      exact ih
    · rw [hAfter.length_eq, ← ih, hBefore.length_eq, List.length_cons, List.length_cons]

theorem fresh_nodup
    (h : (pool network).ReachesWhile (fun st label => Handled network st label ∧ Fresh network st label)
      (.init (.init udids collectors)) st) (hUdids : udids.Nodup) :
    (heldDevices st ++ st.shared.free).Nodup := by
  induction h with
  | refl => exact hUdids
  | tail h hOk hStep ih =>
    obtain ⟨hThreads, hSound⟩ := handled_sound (h.mono fun _ _ hOk => hOk.1)
    rcases step_devices hThreads hSound hStep with
      hPerm | ⟨thread, world, call, p, s, rest, old, replacement, others, hLabel, hThread, hNext, hReplaces, hOld,
        hBefore, hAfter⟩
    · exact hPerm.nodup_iff.mpr ih
    · rw [hAfter.nodup_iff]
      have hBoth := hBefore.nodup_iff.mp ih
      cases s with
      | call site c =>
        cases c with
        | replacedDevice env =>
          rcases hOk.2 thread world call p site env rest replacement hLabel hThread hNext hReplaces with
            hSame | ⟨hFree, hHeld⟩
          · obtain rfl := Option.some.inj (hSame.symm.trans hOld)
            exact hBoth
          · refine List.nodup_cons.mpr ⟨fun hMem => ?_, (List.nodup_cons.mp hBoth).2⟩
            have hThere := hBefore.mem_iff.mpr (List.mem_cons_of_mem old hMem)
            exact (List.mem_append.mp hThere).elim hHeld hFree
        | _ => exact hReplaces.elim
      | _ => exact hReplaces.elim

end Bajutsu.Runner.Pool
