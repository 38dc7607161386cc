import Bajutsu.Serve.LogBus

/-!
# What the subscribers receive

A job that is not discarded keeps one channel, which no other job has. The channel has the lines appended to it,
and each subscriber of the job has received the lines before its index, or is being given the last of them.
-/

namespace Bajutsu.Serve.LogBus

open Interleaving PyValue

/-- The channel that an event gave its call. -/
def given : Ran → Option (String × Nat)
  | ⟨_, _, .chan job, address⟩ => some (job, address)
  | _ => none

def Held (log : List Ran) (address : Nat) (job : String) : Prop := ∃ event ∈ log, given event = some (job, address)

def Statement.writes : Statement → Option Nat
  | .append address _ => some address
  | .close address _ => some address
  | _ => none

def appended : Statement → List String
  | .append _ lines => lines
  | _ => []

def appendedTo (address : Nat) (event : Ran) : List String :=
  if event.stmt.writes = some address then appended event.stmt else []

def yielded : Ran → Option String
  | ⟨_, _, .yield item, _⟩ => item
  | _ => none

/-- The lines a subscriber received, without the heartbeats. -/
def received (thread : Nat) (log : List Ran) : List String := (Machine.eventsOf thread log).filterMap yielded

variable {bus' : Bus} {log : List Ran} {event : Ran} {job : String} {address : Nat} {st fin : System}

theorem held_append : Held (log ++ [event]) address job ↔ Held log address job ∨ given event = some (job, address) := by
  constructor
  · rintro ⟨other, hMem, hGiven⟩
    rcases List.mem_append.mp hMem with hMem | hMem
    · exact .inl ⟨other, hMem, hGiven⟩
    · exact .inr (List.mem_singleton.mp hMem ▸ hGiven)
  · rintro (⟨other, hMem, hGiven⟩ | hGiven)
    · exact ⟨other, List.mem_append_left _ hMem, hGiven⟩
    · exact ⟨event, by simp, hGiven⟩

theorem Held.later (h : Held log address job) : Held (log ++ [event]) address job := held_append.mpr (.inl h)

/-! ## The channels -/

structure ChansKept (bus : Bus) (log : List Ran) : Prop where
  chans : ∀ {job address}, get bus.chans job = some address → Held log address job
  bound : ∀ {job address}, Held log address job → address < bus.heap.length
  owner : ∀ {job job' address}, Held log address job → Held log address job' → job = job'
  kept : ∀ {job address}, (∀ event ∈ log, event.stmt ≠ .discard job) → Held log address job →
    get bus.chans job = some address

theorem ChansKept.skip {bus : Bus} (h : ChansKept bus log) (hGiven : given event = none)
    (hChans : bus'.chans = bus.chans) (hLength : bus'.heap.length = bus.heap.length) : ChansKept bus' (log ++ [event]) := by
  have hHeld {job : String} {address : Nat} : Held (log ++ [event]) address job ↔ Held log address job := by
    rw [held_append, hGiven]
    simp
  constructor
  · intro job address hGet
    rw [hChans] at hGet
    exact (h.chans hGet).later
  · intro job address hHolds
    rw [hLength]
    exact h.bound (hHeld.mp hHolds)
  · intro job job' address hHolds hHolds'
    exact h.owner (hHeld.mp hHolds) (hHeld.mp hHolds')
  · intro job address hKept hHolds
    rw [hChans]
    exact h.kept (fun event hMem => hKept event (List.mem_append_left _ hMem)) (hHeld.mp hHolds)

theorem ChansKept.discard {bus : Bus} (h : ChansKept bus log) (thread : Nat) (job : String) :
    ChansKept { bus with chans := pop bus.chans job } (log ++ [⟨thread, (), .discard job, ()⟩]) := by
  have hHeld {job' : String} {address : Nat} :
      Held (log ++ [⟨thread, (), .discard job, ()⟩]) address job' ↔ Held log address job' := by
    rw [held_append]
    simp [given]
  constructor
  · intro job' address hGet
    rcases eq_or_ne job' job with rfl | hNe
    · rw [get_pop_self] at hGet
      cases hGet
    · rw [get_pop_ne _ hNe] at hGet
      exact (h.chans hGet).later
  · intro job' address hHolds
    exact h.bound (hHeld.mp hHolds)
  · intro job' job'' address hHolds hHolds'
    exact h.owner (hHeld.mp hHolds) (hHeld.mp hHolds')
  · intro job' address hKept hHolds
    have hNe : job' ≠ job := fun hEq => hKept ⟨thread, (), .discard job, ()⟩ (by simp) (by rw [hEq])
    rw [get_pop_ne _ hNe]
    exact h.kept (fun event hMem => hKept event (List.mem_append_left _ hMem)) (hHeld.mp hHolds)

theorem ChansKept.chan {bus : Bus} (h : ChansKept bus log) (thread : Nat) (job : String) :
    ChansKept (exec (.chan job) () bus).1 (log ++ [⟨thread, (), .chan job, (exec (.chan job) () bus).2⟩]) := by
  cases hGet : get bus.chans job with
  | some address =>
    have hExec : exec (.chan job) () bus = (bus, address) := by
      simp only [exec, hGet]
      rfl
    have hHeld {job' : String} {address' : Nat} :
        Held (log ++ [⟨thread, (), .chan job, address⟩]) address' job' ↔ Held log address' job' := by
      rw [held_append]
      refine or_iff_left_of_imp fun hGiven => ?_
      obtain ⟨rfl, rfl⟩ := Prod.mk.inj (Option.some.inj hGiven)
      exact h.chans hGet
    rw [hExec]
    constructor
    · exact fun hGet' => (h.chans hGet').later
    · exact fun hHolds => h.bound (hHeld.mp hHolds)
    · exact fun hHolds hHolds' => h.owner (hHeld.mp hHolds) (hHeld.mp hHolds')
    · exact fun hKept hHolds =>
        h.kept (fun event hMem => hKept event (List.mem_append_left _ hMem)) (hHeld.mp hHolds)
  | none =>
    have hExec : exec (.chan job) () bus =
        (⟨set bus.chans job bus.heap.length, bus.heap ++ [.empty]⟩, bus.heap.length) := by
      simp only [exec, hGet]
      rfl
    have hHeld {job' : String} {address' : Nat} :
        Held (log ++ [⟨thread, (), .chan job, bus.heap.length⟩]) address' job' ↔
          Held log address' job' ∨ (job' = job ∧ address' = bus.heap.length) := by
      rw [held_append]
      refine or_congr_right ?_
      constructor
      · intro hGiven
        obtain ⟨rfl, rfl⟩ := Prod.mk.inj (Option.some.inj hGiven)
        exact ⟨rfl, rfl⟩
      · rintro ⟨rfl, rfl⟩
        rfl
    rw [hExec]
    constructor
    · intro job' address' hGet'
      rcases eq_or_ne job' job with rfl | hNe
      · rw [get_set_self] at hGet'
        exact hHeld.mpr (.inr ⟨rfl, (Option.some.inj hGet').symm⟩)
      · rw [get_set_ne _ _ hNe] at hGet'
        exact (h.chans hGet').later
    · intro job' address' hHolds
      rw [List.length_append, List.length_singleton]
      rcases hHeld.mp hHolds with hHolds | ⟨-, rfl⟩
      · have hBound := h.bound hHolds
        omega
      · omega
    · intro job' job'' address' hHolds hHolds'
      rcases hHeld.mp hHolds with hOld | ⟨rfl, rfl⟩
      · rcases hHeld.mp hHolds' with hOld' | ⟨-, rfl⟩
        · exact h.owner hOld hOld'
        · exact absurd (h.bound hOld) (lt_irrefl _)
      · rcases hHeld.mp hHolds' with hOld' | ⟨rfl, -⟩
        · exact absurd (h.bound hOld') (lt_irrefl _)
        · rfl
    · intro job' address' hKept hHolds
      rcases hHeld.mp hHolds with hHolds | ⟨rfl, rfl⟩
      · have hOld := h.kept (fun event hMem => hKept event (List.mem_append_left _ hMem)) hHolds
        rw [get_set_ne, hOld]
        rintro rfl
        rw [hGet] at hOld
        cases hOld
      · exact get_set_self ..

theorem ChansKept.exec {bus : Bus} (h : ChansKept bus log) (thread : Nat) (s : Statement) :
    ChansKept (exec s () bus).1 (log ++ [⟨thread, (), s, (exec s () bus).2⟩]) := by
  cases s with
  | chan job => exact h.chan thread job
  | discard job => exact h.discard thread job
  | append address lines => exact h.skip rfl rfl (List.length_modify ..)
  | close address final => exact h.skip rfl rfl (List.length_modify ..)
  | _ => exact h.skip rfl rfl rfl

theorem Reachable.chansKept (h : Reachable st) : ChansKept st.shared st.history := by
  refine @Machine.Reaches.logged _ _ _ _ _ _ bus ChansKept (fun thread s _ _ _ hKept => hKept.exec thread s) _ _ h ?_
  constructor
  · exact fun hGet => nomatch hGet
  · rintro job address ⟨event, hMem, -⟩
    cases hMem
  · rintro job job' address ⟨event, hMem, -⟩
    cases hMem
  · rintro job address - ⟨event, hMem, -⟩
    cases hMem

/-! ## The lines of a channel -/

/-- A place in the loop of a stream. -/
def Place.Reads : Place → Prop
  | .program _ => False
  | _ => True

theorem afterReading_reads (address : Nat) (timeout : Option ℚ) (reading : Reading) :
    (afterReading address timeout reading).Reads := by
  rw [afterReading]
  split
  · trivial
  · split
    · trivial
    · split <;> trivial

theorem Place.Reads.next {p : Place} (h : p.Reads) {s : Statement} {rest : Reply s → Place}
    (hNext : next p = some ⟨s, rest⟩) : s.writes = none ∧ ∀ reply, (rest reply).Reads := by
  cases p with
  | program q => cases h
  | opening job timeout =>
    cases hNext
    exact ⟨rfl, fun _ => trivial⟩
  | checking address index timeout =>
    cases hNext
    refine ⟨rfl, fun (reply : Option Reading) => ?_⟩
    cases reply with
    | none => trivial
    | some reading => exact afterReading_reads ..
  | waiting address index timeout =>
    cases hNext
    exact ⟨rfl, fun _ => afterReading_reads ..⟩
  | yielding address index item items timeout =>
    cases hNext
    refine ⟨rfl, fun _ => ?_⟩
    cases items <;> trivial
  | ended => cases hNext

theorem drives_program {events : List Ran} {p : Place} {s : Statement} {rest : Reply s → Place} {job : String}
    {write : Nat → Statement} (hWrite : ∀ address, (write address).writes = some address)
    (h : Machine.Drives bus
      (.program (.stmt (.chan job) fun address : Nat => .stmt (write address) fun _ => .ret none)) events p)
    (hNext : next p = some ⟨s, rest⟩) (hWrites : s.writes = some address) : Held events address job := by
  rcases h.cases rfl with ⟨rfl, rfl⟩ | ⟨thread, e, (given : Nat), later, rfl, hGiven⟩
  · cases hNext
    cases hWrites
  · rcases hGiven.cases rfl with ⟨rfl, rfl⟩ | ⟨thread', e', reply, later', rfl, hDone⟩
    · cases hNext
      obtain rfl := Option.some.inj ((hWrite given).symm.trans hWrites)
      exact ⟨_, List.mem_cons_self, rfl⟩
    · obtain ⟨rfl, -⟩ := hDone.done rfl
      cases hNext

theorem drives_writes {call : Call} {events : List Ran} {p : Place} (h : Machine.Drives bus (start call) events p)
    {s : Statement} {rest : Reply s → Place} (hNext : next p = some ⟨s, rest⟩) (hWrites : s.writes = some address) :
    Held events address call.job := by
  cases call with
  | publish job line => exact drives_program (fun _ => rfl) h hNext hWrites
  | publishMany job lines => exact drives_program (fun _ => rfl) h hNext hWrites
  | close job final => exact drives_program (fun _ => rfl) h hNext hWrites
  | discard job =>
    rcases h.cases rfl with ⟨rfl, rfl⟩ | ⟨thread, e, reply, later, rfl, hDone⟩
    · cases hNext
      cases hWrites
    · obtain ⟨rfl, -⟩ := hDone.done rfl
      cases hNext
  | final job =>
    rcases h.cases rfl with ⟨rfl, rfl⟩ | ⟨thread, e, (found : Option Nat), later, rfl, hFound⟩
    · cases hNext
      cases hWrites
    · cases found with
      | none =>
        obtain ⟨rfl, -⟩ := hFound.done rfl
        cases hNext
      | some address' =>
        rcases hFound.cases rfl with ⟨rfl, rfl⟩ | ⟨thread', e', reply, later', rfl, hDone⟩
        · cases hNext
          cases hWrites
        · obtain ⟨rfl, -⟩ := hDone.done rfl
          cases hNext
  | stream job timeout =>
    have hReads : p.Reads := h.place (fun _ _ _ reply hReads hNext => (hReads.next hNext).2 reply) trivial
    rw [(hReads.next hNext).1] at hWrites
    cases hWrites

theorem at_modify {bus : Bus} (f : Channel → Channel) (other : Nat) (hBound : address < bus.heap.length) :
    Bus.at { bus with heap := bus.heap.modify other f } address =
      if other = address then f (bus.at address) else bus.at address := by
  rw [Bus.at, Bus.at, List.getElem?_modify, List.getElem?_eq_getElem hBound]
  split <;> rfl

theorem at_append {bus : Bus} {chans : List (String × Nat)} (hBound : address < bus.heap.length) :
    Bus.at ⟨chans, bus.heap ++ [.empty]⟩ address = bus.at address := by
  rw [Bus.at, Bus.at, List.getElem?_append_left hBound]

theorem at_exec {bus : Bus} (s : Statement) (hBound : address < bus.heap.length) :
    ((exec s () bus).1.at address).lines =
        (bus.at address).lines ++ (if s.writes = some address then appended s else []) ∧
      (((exec s () bus).1.at address).closed = true →
        (bus.at address).closed = true ∨ ∃ final, s = .close address final) := by
  cases s with
  | append other lines =>
    simp only [exec, at_modify _ other hBound, Statement.writes, appended, Option.some.injEq]
    split
    · exact ⟨rfl, .inl⟩
    · exact ⟨(List.append_nil _).symm, .inl⟩
  | close other final =>
    simp only [exec, at_modify _ other hBound, Statement.writes, appended, Option.some.injEq, ite_self, List.append_nil]
    split
    · rename_i hEq
      exact ⟨rfl, fun _ => .inr ⟨final, hEq ▸ rfl⟩⟩
    · exact ⟨rfl, .inl⟩
  | chan job =>
    have hAt : (exec (.chan job) () bus).1.at address = bus.at address := by
      simp only [exec]
      split
      · rfl
      · exact at_append hBound
    rw [hAt]
    exact ⟨(List.append_nil _).symm, .inl⟩
  | _ => exact ⟨(List.append_nil _).symm, .inl⟩

/-- A channel that a statement gives its call is the job's, or is new. -/
theorem given_exec {bus : Bus} {thread : Nat} {s : Statement}
    (h : given ⟨thread, (), s, (exec s () bus).2⟩ = some (job, address)) :
    s.writes = none ∧ (get bus.chans job = some address ∨
      (address = bus.heap.length ∧ (exec s () bus).1.at address = .empty)) := by
  cases s with
  | chan job' =>
    refine ⟨rfl, ?_⟩
    cases hGet : get bus.chans job' with
    | some address' =>
      simp only [exec, hGet] at h
      obtain ⟨rfl, rfl⟩ := Prod.mk.inj (Option.some.inj h)
      exact .inl hGet
    | none =>
      simp only [exec, hGet] at h ⊢
      obtain ⟨rfl, rfl⟩ := Prod.mk.inj (Option.some.inj h)
      refine .inr ⟨rfl, ?_⟩
      simp [Bus.at]
  | _ => cases h

structure LinesKept (st : System) : Prop where
  writes : ∀ event ∈ st.history, ∀ address, event.stmt.writes = some address →
    ∃ call p, st.threads[event.thread]? = some (call, p) ∧ Held st.history address call.job
  lines : ∀ {job address}, Held st.history address job →
    (st.shared.at address).lines = st.history.flatMap (appendedTo address)
  closed : ∀ {job address}, Held st.history address job → (st.shared.at address).closed = true →
    ∃ event ∈ st.history, ∃ final, event.stmt = .close address final

theorem LinesKept.not_written (h : LinesKept st) (hReachable : Reachable st) {event : Ran} (hMem : event ∈ st.history) :
    event.stmt.writes ≠ some st.shared.heap.length := by
  intro hWrites
  obtain ⟨call, p, -, hHeld⟩ := h.writes event hMem _ hWrites
  exact absurd ((Reachable.chansKept hReachable).bound hHeld) (lt_irrefl _)

theorem LinesKept.step (hReachable : Reachable st) (h : LinesKept st) {label : Label Unit Call}
    (hStep : bus.step st label = some fin) : LinesKept fin := by
  have hChans := Reachable.chansKept hReachable
  have hThreads := (Machine.Reaches.refl st).tail hStep
  have hSound := Machine.Reaches.sound hReachable (Machine.Sound.init _)
  rcases Machine.step_event hStep with ⟨call, -, rfl⟩ | ⟨thread, e, call, p, s, rest, -, hThread, hNext, rfl⟩
  · refine ⟨fun event hMem address hWrites => ?_, h.lines, h.closed⟩
    obtain ⟨call', p, hOther, hHeld⟩ := h.writes event hMem address hWrites
    obtain ⟨p', hOther', -⟩ := hThreads.thread hOther
    exact ⟨call', p', hOther', hHeld⟩
  · have hGiven {job : String} {address : Nat}
        (hHeld : Held (st.history ++ [⟨thread, e, s, (exec s e st.shared).2⟩]) address job) :
        Held st.history address job ∨
          (s.writes = none ∧ address = st.shared.heap.length ∧ (exec s () st.shared).1.at address = .empty) := by
      rcases held_append.mp hHeld with hHeld | hNew
      · exact .inl hHeld
      · obtain ⟨hWrites, hGet | ⟨hFresh, hEmpty⟩⟩ := given_exec hNew
        · exact .inl (hChans.chans hGet)
        · exact .inr ⟨hWrites, hFresh, hEmpty⟩
    constructor
    · intro event hMem address hWrites
      rcases List.mem_append.mp hMem with hMem | hMem
      · obtain ⟨call', p', hOther, hHeld⟩ := h.writes event hMem address hWrites
        obtain ⟨p'', hOther', -⟩ := hThreads.thread hOther
        exact ⟨call', p'', hOther', hHeld.later⟩
      · obtain rfl := List.mem_singleton.mp hMem
        obtain ⟨other, hOther, hGives⟩ := drives_writes (hSound.drives thread call p hThread) hNext hWrites
        obtain ⟨p', hThread', -⟩ := hThreads.thread hThread
        exact ⟨call, p', hThread', Held.later ⟨other, List.mem_of_mem_filter hOther, hGives⟩⟩
    · intro job address hHeld
      rw [List.flatMap_append, List.flatMap_singleton]
      rcases hGiven hHeld with hOld | ⟨hWrites, rfl, hEmpty⟩
      · rw [← h.lines hOld]
        exact (at_exec s (hChans.bound hOld)).1
      · have hNone : st.history.flatMap (appendedTo st.shared.heap.length) = [] :=
          List.flatMap_eq_nil_iff.mpr fun event hMem => if_neg (h.not_written hReachable hMem)
        change ((exec s () st.shared).1.at _).lines = _
        rw [hEmpty, hNone, appendedTo, hWrites, if_neg (nofun)]
        rfl
    · intro job address hHeld hClosed
      rcases hGiven hHeld with hOld | ⟨-, -, hEmpty⟩
      · rcases (at_exec s (hChans.bound hOld)).2 hClosed with hClosed | ⟨final, rfl⟩
        · obtain ⟨event, hMem, final, hEvent⟩ := h.closed hOld hClosed
          exact ⟨event, List.mem_append_left _ hMem, final, hEvent⟩
        · exact ⟨_, List.mem_append_right _ List.mem_cons_self, final, rfl⟩
      · change ((exec s () st.shared).1.at _).closed = true at hClosed
        rw [hEmpty] at hClosed
        cases hClosed

/-- The lines of a channel, by the statements run. -/
def linesOf (address : Nat) (log : List Ran) : List String := log.flatMap (appendedTo address)

/-- The stream has ended at a point where the channel was closed and all its lines were received. -/
def EndedAt (log : List Ran) (address thread : Nat) : Prop :=
  ∃ before after, log = before ++ after ∧ (∃ event ∈ before, ∃ final, event.stmt = .close address final) ∧
    received thread log = linesOf address before

/-- What a stream has received where it stands. -/
def StreamAt (log : List Ran) (job : String) (thread : Nat) : Place → Prop
  | .program _ => False
  | .opening job' _ => job' = job ∧ received thread log = []
  | .checking address index _ | .waiting address index _ =>
    Held log address job ∧ index ≤ (linesOf address log).length ∧
      received thread log = (linesOf address log).take index
  | .yielding address index item items _ =>
    Held log address job ∧ index ≤ (linesOf address log).length ∧
      received thread log ++ (item.toList ++ items) = (linesOf address log).take index
  | .ended => ∃ address, Held log address job ∧ EndedAt log address thread

theorem received_append (thread : Nat) (log : List Ran) (event : Ran) :
    received thread (log ++ [event]) =
      received thread log ++ if event.thread = thread then (yielded event).toList else [] := by
  split
  · rename_i hThread
    rw [received, Machine.eventsOf_self log hThread, Machine.filterMap_concat]
    rfl
  · rename_i hThread
    rw [received, Machine.eventsOf_other log hThread, List.append_nil]
    rfl

theorem linesOf_append (address : Nat) (log later : List Ran) :
    linesOf address (log ++ later) = linesOf address log ++ linesOf address later := List.flatMap_append ..

theorem take_linesOf {index : Nat} {later : List Ran} (h : index ≤ (linesOf address log).length) :
    index ≤ (linesOf address (log ++ later)).length ∧
      (linesOf address (log ++ later)).take index = (linesOf address log).take index := by
  rw [linesOf_append, List.length_append, List.take_append_of_le_length h]
  exact ⟨by omega, rfl⟩

/-- A statement that gives a subscriber nothing leaves what it received. -/
theorem StreamAt.later {thread : Nat} {p : Place} (h : StreamAt log job thread p)
    (hEvent : received thread (log ++ [event]) = received thread log) : StreamAt (log ++ [event]) job thread p := by
  cases p with
  | program q => exact h
  | opening job' timeout => exact ⟨h.1, hEvent ▸ h.2⟩
  | checking address index timeout | waiting address index timeout =>
    obtain ⟨hHeld, hIndex, hReceived⟩ := h
    obtain ⟨hIndex', hTake⟩ := take_linesOf hIndex
    refine ⟨hHeld.later, hIndex', ?_⟩
    rw [hEvent, hTake, hReceived]
  | yielding address index item items timeout =>
    obtain ⟨hHeld, hIndex, hReceived⟩ := h
    obtain ⟨hIndex', hTake⟩ := take_linesOf hIndex
    refine ⟨hHeld.later, hIndex', ?_⟩
    rw [hEvent, hTake, hReceived]
  | ended =>
    obtain ⟨address, hHeld, before, after, rfl, hClosed, hReceived⟩ := h
    refine ⟨address, hHeld.later, before, after ++ [event], List.append_assoc .., hClosed, ?_⟩
    rw [hEvent, hReceived]

/-- A subscriber that reads its channel goes on with all of the lines, or ends when the channel is closed. -/
theorem StreamAt.reading {thread index : Nat} {timeout : Option ℚ} {channel : Channel}
    (hHeld : Held log address job) (hReceived : received thread log = (linesOf address log).take index)
    (hLines : channel.lines = linesOf address log)
    (hClosed : channel.closed = true → ∃ event ∈ log, ∃ final, event.stmt = .close address final) :
    StreamAt log job thread (afterReading address timeout (channel.read index)) := by
  have hAll : received thread log ++ (linesOf address log).drop index = linesOf address log := by
    rw [hReceived, List.take_append_drop]
  have hTake : (linesOf address log).take (linesOf address log).length = linesOf address log := List.take_length
  simp only [afterReading, Channel.read, hLines]
  split
  · rename_i line lines hBatch
    refine ⟨hHeld, le_rfl, ?_⟩
    rw [hTake, ← hAll, hBatch]
    rfl
  · rename_i hBatch
    rw [hBatch, List.append_nil] at hAll
    split
    · rename_i hDone
      exact ⟨address, hHeld, log, [], (List.append_nil log).symm, hClosed hDone, hAll⟩
    · split
      · refine ⟨hHeld, le_rfl, ?_⟩
        rw [hTake, ← hAll]
        exact List.append_nil _
      · exact ⟨hHeld, le_rfl, hAll.trans hTake.symm⟩

theorem StreamAt.next {thread : Nat} {p : Place} {bus : Bus} (h : StreamAt log job thread p) {s : Statement}
    {rest : Reply s → Place} (hNext : next p = some ⟨s, rest⟩)
    (hLines : ∀ {address}, Held log address job → (bus.at address).lines = linesOf address log)
    (hClosed : ∀ {address}, Held log address job → (bus.at address).closed = true →
      ∃ event ∈ log, ∃ final, event.stmt = .close address final) :
    StreamAt (log ++ [⟨thread, (), s, (exec s () bus).2⟩]) job thread (rest (exec s () bus).2) := by
  have hQuiet (event : Ran) (hYielded : yielded event = none) :
      received thread (log ++ [event]) = received thread log := by
    rw [received_append, hYielded]
    simp
  cases p with
  | program q => cases h
  | opening job' timeout =>
    obtain ⟨rfl, hReceived⟩ := h
    cases hNext
    refine ⟨held_append.mpr (.inr rfl), Nat.zero_le _, ?_⟩
    rw [hQuiet _ rfl, hReceived, List.take_zero]
  | checking address index timeout =>
    obtain ⟨hHeld, hIndex, hReceived⟩ := h
    cases hNext
    by_cases hWait : (bus.at address).lines.length ≤ index ∧ (bus.at address).closed = false
    · have hReply : (exec (.check address index) () bus).2 = (none : Option Reading) := if_pos hWait
      rw [hReply]
      exact StreamAt.later ⟨hHeld, hIndex, hReceived⟩ (hQuiet _ rfl)
    · have hReply : (exec (.check address index) () bus).2 = some ((bus.at address).read index) := if_neg hWait
      rw [hReply]
      exact (StreamAt.reading hHeld hReceived (hLines hHeld) (hClosed hHeld)).later (hQuiet _ rfl)
  | waiting address index timeout =>
    obtain ⟨hHeld, hIndex, hReceived⟩ := h
    cases hNext
    exact (StreamAt.reading hHeld hReceived (hLines hHeld) (hClosed hHeld)).later (hQuiet _ rfl)
  | yielding address index item items timeout =>
    obtain ⟨hHeld, hIndex, hReceived⟩ := h
    cases hNext
    obtain ⟨hIndex', hTake⟩ := take_linesOf hIndex
    have hItem : received thread (log ++ [⟨thread, (), .yield item, ()⟩]) = received thread log ++ item.toList := by
      rw [received_append, if_pos rfl]
      rfl
    cases items with
    | nil =>
      refine ⟨hHeld.later, hIndex', ?_⟩
      rw [List.append_nil] at hReceived
      exact hItem.trans (hReceived.trans hTake.symm)
    | cons line lines =>
      refine ⟨hHeld.later, hIndex', ?_⟩
      rw [← List.append_assoc, ← hItem] at hReceived
      exact hReceived.trans hTake.symm
  | ended => cases hNext

def callOf (st : System) (event : Ran) : Option Call := (st.threads[event.thread]?).map Prod.fst

/-- The lines that the calls on a job have published. -/
def published (st : System) (job : String) (log : List Ran) : List String :=
  log.flatMap fun event => if (callOf st event).map Call.job = some job then appended event.stmt else []

/-- An event by which a call closed the job. -/
def Closes (st : System) (job : String) (event : Ran) : Prop :=
  (callOf st event).map Call.job = some job ∧ ∃ address final, event.stmt = .close address final

end Bajutsu.Serve.LogBus
