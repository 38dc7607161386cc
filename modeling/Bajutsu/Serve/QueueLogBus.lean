import Bajutsu.Lib.Recency
import Bajutsu.Serve.LogBus

/-!
# The queue's log bus

A bus over the in-memory one that bounds its channels: a job enters the eviction order at its first lines and moves to
the back when it closes, and past the bound the oldest finished job is discarded, an unfinished one only when no
finished one is left.
-/

namespace Bajutsu.Serve.QueueLogBus

open PyValue Recency

/-- The live bus, and the eviction order: each job with whether it finished. -/
structure State where
  live : LogBus.Bus
  closed : List (String × Bool)

inductive Call where
  | publish (job line : String)
  | publishMany (job : String) (lines : List String)
  | close (job : String) (final : Option String)

def State.new : State := ⟨⟨[], []⟩, []⟩

def append (job : String) (lines : List String) (live : LogBus.Bus) : LogBus.Bus :=
  let (live, address) := LogBus.exec (.chan job) () live
  (LogBus.exec (.append address lines) () live).1

def closeLive (job : String) (final : Option String) (live : LogBus.Bus) : LogBus.Bus :=
  let (live, address) := LogBus.exec (.chan job) () live
  (LogBus.exec (.close address final) () live).1

def discard (live : LogBus.Bus) (job : String) : LogBus.Bus := (LogBus.exec (.discard job) () live).1

/-- The oldest finished job, or the oldest one when none is finished. -/
def victim (closed : List (String × Bool)) : Option String :=
  ((closed.find? fun item => item.2) <|> closed.head?).map Prod.fst

/-- The order past the bound gives up one job after another; it has as many turns as there are jobs. -/
def evictIn (keepClosed : Nat) : Nat → List (String × Bool) → List (String × Bool) × List String
  | 0, closed => (closed, [])
  | turns + 1, closed =>
    if closed.length ≤ keepClosed then (closed, [])
    else
      match victim closed with
      | none => (closed, [])
      | some job =>
        let (rest, victims) := evictIn keepClosed turns (pop closed job)
        (rest, job :: victims)

def evict (keepClosed : Nat) (closed : List (String × Bool)) : List (String × Bool) × List String :=
  evictIn keepClosed closed.length closed

def discardAll (keepClosed : Nat) (closed : List (String × Bool)) (live : LogBus.Bus) : State × List String :=
  let (closed, victims) := evict keepClosed closed
  (⟨victims.foldl discard live, closed⟩, victims)

def track (keepClosed : Nat) (job : String) (st : State) : State × List String :=
  if (get st.closed job).isSome then (st, []) else discardAll keepClosed (PyValue.set st.closed job false) st.live

def retire (keepClosed : Nat) (job : String) (st : State) : State × List String :=
  discardAll keepClosed (touch st.closed job true) st.live

/-- The state after a call, and the jobs whose channels it discarded. -/
def step (keepClosed : Nat) (st : State) : Call → State × List String
  | .publish job line => ({ st with live := append job [line] st.live }, [])
  | .publishMany job lines => track keepClosed job { st with live := append job lines st.live }
  | .close job final => retire keepClosed job { st with live := closeLive job final st.live }

def run (keepClosed : Nat) (calls : List Call) : State :=
  calls.foldl (fun st call => (step keepClosed st call).1) .new

def State.channels (st : State) : List String := st.live.chans.map Prod.fst

def State.order (st : State) : List String := st.closed.map Prod.fst

/-- The jobs a sequence of calls closes. -/
def finished (calls : List Call) : List String :=
  calls.filterMap fun
    | .close job _ => some job
    | _ => none

/-- What a call leaves: few channels, all in the eviction order, and no finished job's channel if it discarded an
unfinished job's. -/
structure Bounded (keepClosed : Nat) (calls : List Call) (call : Call) : Prop where
  few : (step keepClosed (run keepClosed calls) call).1.channels.length ≤ keepClosed
  ordered : ∀ job ∈ (step keepClosed (run keepClosed calls) call).1.channels,
    job ∈ (step keepClosed (run keepClosed calls) call).1.order
  spared : ∀ job ∈ (step keepClosed (run keepClosed calls) call).2, job ∉ finished (calls ++ [call]) →
    ∀ other ∈ (step keepClosed (run keepClosed calls) call).1.channels, other ∉ finished (calls ++ [call])

/-- A single line is only published for a job in the eviction order, and lines for a job that was closed only while it
is still there. -/
def Tracked (keepClosed : Nat) (calls : List Call) : Call → Prop
  | .publish job _ => job ∈ (run keepClosed calls).order
  | .publishMany job _ => job ∈ finished calls → job ∈ (run keepClosed calls).order
  | .close _ _ => True

/-! ## Eviction -/

theorem victim_cases {closed : List (String × Bool)} {job : String} (h : victim closed = some job) :
    (job, true) ∈ closed ∨ (job, false) ∈ closed ∧ ∀ item ∈ closed, item.2 = false := by
  rw [victim] at h
  obtain ⟨item, hItem, rfl⟩ := Option.map_eq_some_iff.mp h
  cases hFind : closed.find? (fun item => item.2) with
  | some found =>
    rw [hFind] at hItem
    cases hItem
    have hFinished : item.2 = true := by simpa using List.find?_some hFind
    exact .inl (hFinished ▸ List.mem_of_find?_eq_some hFind)
  | none =>
    rw [hFind] at hItem
    have hNone : ∀ item ∈ closed, item.2 = false := by simpa using List.find?_eq_none.mp hFind
    have hMem := List.mem_of_mem_head? hItem
    exact .inr ⟨hNone item hMem ▸ hMem, hNone⟩

theorem exists_victim {closed : List (String × Bool)} (h : closed ≠ []) : ∃ job, victim closed = some job := by
  rw [victim]
  cases hFind : closed.find? (fun item => item.2) with
  | some found => exact ⟨found.1, rfl⟩
  | none =>
    cases closed with
    | nil => exact absurd rfl h
    | cons item closed => exact ⟨item.1, rfl⟩

theorem length_pop_lt {closed : List (String × Bool)} {job : String} (h : job ∈ closed.map Prod.fst) :
    (pop closed job).length < closed.length := by
  obtain ⟨item, hMem, rfl⟩ := List.mem_map.mp h
  exact List.length_filter_lt_length_iff_exists.mpr ⟨item, hMem, by simp⟩

/-- What is left after the evictions, and what was evicted. -/
structure Evicted (keepClosed : Nat) (closed rest : List (String × Bool)) (victims : List String) : Prop where
  few : rest.length ≤ keepClosed
  kept : rest.Sublist closed
  gone : ∀ job ∈ closed.map Prod.fst, job ∈ rest.map Prod.fst ∨ job ∈ victims
  were : ∀ job ∈ victims, job ∈ closed.map Prod.fst
  spared : ∀ job ∈ victims, (job, true) ∈ closed ∨ ∀ item ∈ rest, item.2 = false

theorem evictIn_spec (keepClosed : Nat) {turns : Nat} {closed : List (String × Bool)} (hTurns : closed.length ≤ turns) :
    Evicted keepClosed closed (evictIn keepClosed turns closed).1 (evictIn keepClosed turns closed).2 := by
  induction turns generalizing closed with
  | zero =>
    rw [List.length_eq_zero_iff.mp (Nat.le_zero.mp hTurns)]
    exact ⟨Nat.zero_le _, .slnil, by simp [evictIn], by simp [evictIn], by simp [evictIn]⟩
  | succ turns ih =>
    rw [evictIn]
    by_cases hFew : closed.length ≤ keepClosed
    · rw [if_pos hFew]
      exact ⟨hFew, List.Sublist.refl closed, fun job hMem => .inl hMem, by simp, by simp⟩
    · rw [if_neg hFew]
      have hSome : closed ≠ [] := by
        rintro rfl
        exact hFew (Nat.zero_le _)
      obtain ⟨job, hJob⟩ := exists_victim hSome
      have hVictim := victim_cases hJob
      have hMem : job ∈ closed.map Prod.fst := by
        obtain hMem | ⟨hMem, -⟩ := hVictim
        · exact List.mem_map_of_mem hMem
        · exact List.mem_map_of_mem hMem
      have hShorter := length_pop_lt hMem
      have hRest := @ih (pop closed job) (by omega)
      rw [hJob]
      constructor
      · exact hRest.few
      · exact hRest.kept.trans List.filter_sublist
      · intro other hOther
        by_cases hSame : other = job
        · exact .inr (hSame ▸ List.mem_cons_self)
        · obtain hStays | hGoes := hRest.gone other (mem_keys_pop.mpr ⟨hOther, hSame⟩)
          · exact .inl hStays
          · exact .inr (List.mem_cons_of_mem job hGoes)
      · intro other hOther
        obtain rfl | hOther := List.mem_cons.mp hOther
        · exact hMem
        · exact (mem_keys_pop.mp (hRest.were other hOther)).1
      · intro other hOther
        obtain rfl | hOther := List.mem_cons.mp hOther
        · obtain hFinished | ⟨-, hNone⟩ := hVictim
          · exact .inl hFinished
          · exact .inr fun item hItem => hNone item (List.mem_of_mem_filter (hRest.kept.subset hItem))
        · obtain hFinished | hNone := hRest.spared other hOther
          · exact .inl (List.mem_of_mem_filter hFinished)
          · exact .inr hNone

theorem evict_spec (keepClosed : Nat) (closed : List (String × Bool)) :
    Evicted keepClosed closed (evict keepClosed closed).1 (evict keepClosed closed).2 := evictIn_spec keepClosed le_rfl

/-! ## The live channels -/

/-- Every access to a channel makes it when it is missing. -/
structure Opened (chans after : List (String × Nat)) (job : String) : Prop where
  channels : ∀ other ∈ after.map Prod.fst, other = job ∨ other ∈ chans.map Prod.fst
  distinct : (chans.map Prod.fst).Nodup → (after.map Prod.fst).Nodup

theorem opened_chan (live : LogBus.Bus) (job : String) :
    Opened live.chans (LogBus.exec (.chan job) () live).1.chans job := by
  rw [LogBus.exec]
  cases hGet : get live.chans job with
  | some address => exact ⟨fun _ => .inr, id⟩
  | none =>
    have hNew : job ∉ live.chans.map Prod.fst := fun hMem => by simpa [hGet] using get_isSome_iff.mpr hMem
    have hSet := set_of_get_none hGet live.heap.length
    constructor
    · intro other hMem
      simp only [hSet, List.map_append, List.mem_append, List.map_singleton, List.mem_singleton] at hMem
      exact hMem.symm
    · intro hDistinct
      simp only [hSet, List.map_append, List.map_singleton]
      exact hDistinct.append (List.nodup_singleton job) (List.disjoint_singleton.mpr hNew)

theorem opened_append (job : String) (lines : List String) (live : LogBus.Bus) :
    Opened live.chans (append job lines live).chans job := opened_chan live job

theorem opened_closeLive (job : String) (final : Option String) (live : LogBus.Bus) :
    Opened live.chans (closeLive job final live).chans job := opened_chan live job

theorem mem_discards {victims : List String} {live : LogBus.Bus} {job : String} :
    job ∈ (victims.foldl discard live).chans.map Prod.fst ↔ job ∈ live.chans.map Prod.fst ∧ job ∉ victims := by
  induction victims generalizing live with
  | nil => simp
  | cons victim victims ih =>
    rw [List.foldl_cons, ih, discard, LogBus.exec, mem_keys_pop, List.mem_cons, not_or, and_assoc]

theorem nodup_discards {victims : List String} {live : LogBus.Bus} (h : (live.chans.map Prod.fst).Nodup) :
    ((victims.foldl discard live).chans.map Prod.fst).Nodup := by
  induction victims generalizing live with
  | nil => exact h
  | cons victim victims ih => exact ih (nodup_pop h victim)

/-! ## The two tables -/

/-- The order and the channels after some calls. -/
structure InStep (keepClosed : Nat) (calls : List Call) (st : State) : Prop where
  distinct : st.order.Nodup
  channels : st.channels.Nodup
  ordered : ∀ job ∈ st.channels, job ∈ st.order
  few : st.closed.length ≤ keepClosed
  flags : ∀ item ∈ st.closed, item.2 = true ↔ item.1 ∈ finished calls

theorem InStep.length {keepClosed : Nat} {calls : List Call} {st : State} (h : InStep keepClosed calls st) :
    st.channels.length ≤ keepClosed := by
  have hLength : st.order.length ≤ keepClosed := by
    rw [State.order, List.length_map]
    exact h.few
  exact (h.channels.subperm h.ordered).length_le.trans hLength

theorem InStep.of_discardAll {keepClosed : Nat} {calls : List Call} {closed : List (String × Bool)} {live : LogBus.Bus}
    (hDistinct : (closed.map Prod.fst).Nodup) (hChannels : (live.chans.map Prod.fst).Nodup)
    (hOrdered : ∀ job ∈ live.chans.map Prod.fst, job ∈ closed.map Prod.fst)
    (hFlags : ∀ item ∈ closed, item.2 = true ↔ item.1 ∈ finished calls) :
    InStep keepClosed calls (discardAll keepClosed closed live).1 ∧
      ∀ job ∈ (discardAll keepClosed closed live).2, job ∉ finished calls →
        ∀ other ∈ (discardAll keepClosed closed live).1.channels, other ∉ finished calls := by
  have hEvicted := evict_spec keepClosed closed
  have hInStep : InStep keepClosed calls (discardAll keepClosed closed live).1 := by
    constructor
    · exact hDistinct.sublist (hEvicted.kept.map Prod.fst)
    · exact nodup_discards hChannels
    · intro job hMem
      obtain ⟨hMem, hStays⟩ := mem_discards.mp hMem
      exact (hEvicted.gone job (hOrdered job hMem)).resolve_right hStays
    · exact hEvicted.few
    · exact fun item hMem => hFlags item (hEvicted.kept.subset hMem)
  refine ⟨hInStep, fun job hVictim hUnfinished other hOther hFinished => ?_⟩
  obtain ⟨item, hItem, rfl⟩ := List.mem_map.mp (hInStep.ordered other hOther)
  obtain hMem | hNone := hEvicted.spared job hVictim
  · exact hUnfinished ((hFlags _ hMem).mp rfl)
  · have hFlag := (hInStep.flags item hItem).mpr hFinished
    rw [hNone item hItem] at hFlag
    cases hFlag

theorem finished_append (calls : List Call) (call : Call) :
    finished (calls ++ [call]) = finished calls ++ finished [call] := List.filterMap_append

theorem InStep.step {keepClosed : Nat} {calls : List Call} (h : InStep keepClosed calls (run keepClosed calls))
    {call : Call} (hTracked : Tracked keepClosed calls call) :
    InStep keepClosed (calls ++ [call]) (step keepClosed (run keepClosed calls) call).1 ∧
      ∀ job ∈ (QueueLogBus.step keepClosed (run keepClosed calls) call).2, job ∉ finished (calls ++ [call]) →
        ∀ other ∈ (QueueLogBus.step keepClosed (run keepClosed calls) call).1.channels,
          other ∉ finished (calls ++ [call]) := by
  cases call with
  | publish job line =>
    have hOpened := opened_append job [line] (run keepClosed calls).live
    have hSame : finished (calls ++ [.publish job line]) = finished calls := by
      rw [finished_append]
      exact List.append_nil _
    refine ⟨⟨h.distinct, hOpened.distinct h.channels, fun other hMem => ?_, h.few, fun item hMem => ?_⟩, nofun⟩
    · obtain rfl | hMem := hOpened.channels other hMem
      · exact hTracked
      · exact h.ordered other hMem
    · rw [hSame]
      exact h.flags item hMem
  | publishMany job lines =>
    have hOpened := opened_append job lines (run keepClosed calls).live
    have hSame : finished (calls ++ [.publishMany job lines]) = finished calls := by
      rw [finished_append]
      exact List.append_nil _
    rw [QueueLogBus.step, track, hSame]
    dsimp only
    split
    · rename_i hSome
      refine ⟨⟨h.distinct, hOpened.distinct h.channels, fun other hMem => ?_, h.few, fun item hMem => ?_⟩, nofun⟩
      · obtain rfl | hMem := hOpened.channels other hMem
        · exact get_isSome_iff.mp hSome
        · exact h.ordered other hMem
      · rw [hSame]
        exact h.flags item hMem
    · rename_i hNone
      have hNew : job ∉ (run keepClosed calls).order := fun hMem => hNone (get_isSome_iff.mpr hMem)
      have hSet := set_of_get_none (Option.not_isSome_iff_eq_none.mp hNone) false
      have hUnfinished : job ∉ finished calls := fun hFinished => hNew (hTracked hFinished)
      rw [hSet, ← hSame]
      apply InStep.of_discardAll
      · rw [List.map_append]
        exact h.distinct.append (List.nodup_singleton job) (List.disjoint_singleton.mpr hNew)
      · exact hOpened.distinct h.channels
      · intro other hMem
        rw [List.map_append, List.mem_append]
        obtain rfl | hMem := hOpened.channels other hMem
        · exact .inr List.mem_cons_self
        · exact .inl (h.ordered other hMem)
      · intro item hMem
        rw [hSame]
        obtain hMem | hMem := List.mem_append.mp hMem
        · exact h.flags item hMem
        · rw [List.mem_singleton.mp hMem]
          exact ⟨nofun, fun hFinished => absurd hFinished hUnfinished⟩
  | close job final =>
    have hOpened := opened_closeLive job final (run keepClosed calls).live
    apply InStep.of_discardAll
    · exact nodup_touch h.distinct job true
    · exact hOpened.distinct h.channels
    · intro other hMem
      rw [mem_keys_touch]
      exact (hOpened.channels other hMem).imp_right (h.ordered other)
    · intro item hMem
      rw [finished_append, List.mem_append]
      obtain hMem | hMem := List.mem_append.mp hMem
      · obtain ⟨hMem, hOther⟩ := List.mem_filter.mp hMem
        have hNe : item.1 ≠ job := by simpa using hOther
        rw [h.flags item hMem]
        exact ⟨.inl, fun hOr => hOr.resolve_right fun hOwn => hNe (List.mem_singleton.mp hOwn)⟩
      · rw [List.mem_singleton.mp hMem]
        exact ⟨fun _ => .inr List.mem_cons_self, fun _ => rfl⟩

theorem run_snoc (keepClosed : Nat) (calls : List Call) (call : Call) :
    run keepClosed (calls ++ [call]) = (step keepClosed (run keepClosed calls) call).1 := by
  rw [run, List.foldl_append]
  rfl

theorem InStep.run {keepClosed : Nat} {calls : List Call}
    (hTracked : ∀ earlier call later, calls = earlier ++ call :: later → Tracked keepClosed earlier call) :
    InStep keepClosed calls (run keepClosed calls) := by
  induction calls using List.reverseRecOn with
  | nil => exact ⟨List.nodup_nil, List.nodup_nil, nofun, Nat.zero_le _, nofun⟩
  | append_singleton calls call ih =>
    have hBefore := ih fun earlier first later hSplit =>
      hTracked earlier first (later ++ [call]) (by rw [hSplit, List.append_assoc, List.cons_append])
    rw [run_snoc]
    exact (hBefore.step (hTracked calls call [] rfl)).1

/-- The memory of the live bus is bounded in every run whose lines are published for jobs in the eviction order. -/
theorem channels_bounded {keepClosed : Nat} {calls : List Call}
    (hTracked : ∀ earlier call later, calls = earlier ++ call :: later → Tracked keepClosed earlier call)
    {earlier later : List Call} {call : Call} (hSplit : calls = earlier ++ call :: later) :
    Bounded keepClosed earlier call := by
  have hBefore : InStep keepClosed earlier (run keepClosed earlier) := by
    apply InStep.run
    rintro first next rest rfl
    exact hTracked first next (rest ++ call :: later) (by rw [hSplit, List.append_assoc, List.cons_append])
  obtain ⟨hAfter, hSpared⟩ := hBefore.step (hTracked earlier call later hSplit)
  exact ⟨hAfter.length, hAfter.ordered, hSpared⟩

theorem second_job_bounded : Bounded 1 [.publishMany "run-1" ["launch"]] (.close "run-2" none) := by
  refine @channels_bounded 1 [.publishMany "run-1" ["launch"], .close "run-2" none] ?_ [.publishMany "run-1" ["launch"]] []
    (.close "run-2" none) rfl
  intro earlier call later hSplit
  match earlier, hSplit with
  | [], hSplit =>
    cases hSplit
    exact nofun
  | [_], hSplit =>
    cases hSplit
    trivial
  | _ :: _ :: _, hSplit => simp at hSplit

/-- Single lines for two jobs make two channels, and none is in the eviction order. -/
theorem single_lines_pile_up :
    ¬∀ (keepClosed : Nat) (calls : List Call) (call : Call), Bounded keepClosed calls call := by
  intro h
  exact absurd (h 1 [.publish "run-1" "launch"] (.publish "run-2" "launch")).few (by decide)

end Bajutsu.Serve.QueueLogBus
