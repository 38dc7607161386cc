import Bajutsu.Jobs.Store

/-!
# The writes to one job

What any interleaving does to one row: it is inserted once, and from then on it changes by the updates
that matched it, in the order they ran.
-/

namespace Bajutsu.Jobs

open Interleaving PyValue

/-- The call and the update, when the statement wrote the job's row. -/
def wrote (id : String) : Event Statement Reply Moment → Option (Nat × Update)
  | ⟨thread, _, .update id' change, count⟩ =>
    let count : Nat := count
    if id' = id ∧ count = 1 then some (thread, change) else none
  | _ => none

def writes (id : String) (events : List (Event Statement Reply Moment)) : List (Nat × Update) :=
  events.filterMap (wrote id)

/-- The row changes by these updates, each of which held of it when it ran. -/
inductive Evolves (settings : Settings) : JobRecord → List (Nat × Update) → JobRecord → Prop where
  | refl (row : JobRecord) : Evolves settings row [] row
  | tail {row mid : JobRecord} {changes : List (Nat × Update)} (h : Evolves settings row changes mid)
      (thread : Nat) (now : Int) (change : Update) (hHolds : change.holds mid = true) :
      Evolves settings row (changes ++ [(thread, change)]) (change.assign settings now mid)

variable {settings : Settings}

theorem store_exec : (store settings).exec = exec settings := rfl

@[simp] theorem Update.assign_id (now : Int) (change : Update) (row : JobRecord) :
    (change.assign settings now row).id = row.id := by
  cases change <;> rfl

theorem keyed_exec (s : Statement) (moment : Moment) {rows : Rows} (h : Table.Keyed JobRecord.id rows) :
    Table.Keyed JobRecord.id (exec settings s moment rows).1 := by
  cases s with
  | insert id orgId spec capabilities => exact Table.keyed_insert h _
  | update id change => exact Table.keyed_update h fun row => change.assign_id moment.now row
  | selectQueued => exact h
  | lockQueued id => exact h
  | selectJob id => exact h
  | selectExpired => exact h
  | selectResponse id worker => exact h

/-- What one statement does to a job: nothing, insert it, or change it by an update that held. -/
theorem exec_job {rows : Rows} (hKeyed : Table.Keyed JobRecord.id rows) (s : Statement) (moment : Moment)
    (thread : Nat) (id : String) :
    ((exec settings s moment rows).1.job id = rows.job id ∧
        wrote id ⟨thread, moment, s, (exec settings s moment rows).2⟩ = none) ∨
      (∃ orgId spec capabilities, rows.job id = none ∧
        (exec settings s moment rows).1.job id = some (.fresh id orgId spec capabilities moment.now) ∧
        wrote id ⟨thread, moment, s, (exec settings s moment rows).2⟩ = none) ∨
      ∃ row change, rows.job id = some row ∧ change.holds row = true ∧ s = .update id change ∧
        (exec settings s moment rows).1.job id = some (change.assign settings moment.now row) ∧
        wrote id ⟨thread, moment, s, (exec settings s moment rows).2⟩ = some (thread, change) := by
  cases s with
  | insert id' orgId spec capabilities =>
    rcases @Table.insert_cases _ _ _ JobRecord.id (.fresh id' orgId spec capabilities moment.now) rows
      with ⟨hInsert, -⟩ | ⟨hInsert, hFree⟩
    · exact .inl ⟨by rw [exec, hInsert], rfl⟩
    · by_cases hId : id' = id
      · subst hId
        refine .inr (.inl ⟨orgId, spec, capabilities, hFree, ?_, rfl⟩)
        rw [exec, hInsert, Rows.job, Table.find_append_single]
        simp only [JobRecord.fresh] at hFree ⊢
        rw [hFree]
        simp
      · refine .inl ⟨?_, rfl⟩
        rw [exec, hInsert, Rows.job, Table.find_append_single, if_neg (by simpa [JobRecord.fresh] using hId)]
        exact Option.or_none
  | update id' change =>
    have hAssign : ∀ row : JobRecord, (change.assign settings moment.now row).id = row.id :=
      fun row => change.assign_id moment.now row
    by_cases hId : id' = id
    · subst hId
      rcases @Table.updateOne_cases _ _ _ JobRecord.id change.holds (change.assign settings moment.now) rows
        hKeyed hAssign id' with ⟨row, hRow, hHolds, hFind, hCount⟩ | ⟨-, hFind, hCount⟩
      · exact .inr (.inr ⟨row, change, hRow, hHolds, rfl, hFind, by simp [wrote, exec, hCount]⟩)
      · exact .inl ⟨hFind, by simp [wrote, exec, hCount]⟩
    · exact .inl ⟨Table.find_updateOne_ne hAssign (Ne.symm hId) rows, by simp [wrote, hId]⟩
  | selectQueued => exact .inl ⟨rfl, rfl⟩
  | lockQueued id => exact .inl ⟨rfl, rfl⟩
  | selectJob id => exact .inl ⟨rfl, rfl⟩
  | selectExpired => exact .inl ⟨rfl, rfl⟩
  | selectResponse id worker => exact .inl ⟨rfl, rfl⟩

theorem writes_append (id : String) (events later : List (Event Statement Reply Moment)) :
    writes id (events ++ later) = writes id events ++ writes id later := List.filterMap_append

/-- Where a job stands: not inserted yet, or changed by its writes since it was. -/
def Stands (settings : Settings) (id : String) (rows : Rows) (changes : List (Nat × Update)) : Prop :=
  (rows.job id = none ∧ changes = []) ∨
    ∃ orgId spec capabilities now row, rows.job id = some row ∧
      Evolves settings (.fresh id orgId spec capabilities now) changes row

theorem Stands.exec {id : String} {rows : Rows} {changes : List (Nat × Update)}
    (h : Stands settings id rows changes) (hKeyed : Table.Keyed JobRecord.id rows) (s : Statement)
    (moment : Moment) (thread : Nat) :
    Stands settings id (exec settings s moment rows).1
      (changes ++ (wrote id ⟨thread, moment, s, (Jobs.exec settings s moment rows).2⟩).toList) := by
  rcases exec_job hKeyed s moment thread id with ⟨hSame, hNone⟩ | ⟨orgId, spec, capabilities, hNew, hFresh, hNone⟩ |
    ⟨row, change, hRow, hHolds, -, hNext, hWrote⟩
  · rw [hNone, Option.toList_none, List.append_nil, Stands, hSame]
    exact h
  · rcases h with ⟨-, rfl⟩ | ⟨_, _, _, _, row, hRow, -⟩
    · rw [hNone]
      exact .inr ⟨orgId, spec, capabilities, moment.now, _, hFresh, .refl _⟩
    · rw [hNew] at hRow
      cases hRow
  · rcases h with ⟨hNone, -⟩ | ⟨orgId, spec, capabilities, now, row', hRow', hEvolves⟩
    · rw [hNone] at hRow
      cases hRow
    · rw [hRow] at hRow'
      obtain rfl := Option.some.inj hRow'
      rw [hWrote]
      exact .inr ⟨orgId, spec, capabilities, now, _, hNext, hEvolves.tail thread moment.now change hHolds⟩

theorem writes_concat (id : String) (events : List (Event Statement Reply Moment))
    (event : Event Statement Reply Moment) :
    writes id (events ++ [event]) = writes id events ++ (wrote id event).toList := by
  rw [writes_append, List.append_cancel_left_eq]
  cases hWrote : wrote id event with
  | none => exact List.filterMap_cons_none hWrote
  | some change => exact List.filterMap_cons_some hWrote

theorem Reachable.keyed {st : System} (h : Reachable settings st) : Table.Keyed JobRecord.id st.shared :=
  @Machine.Reaches.shared _ _ _ _ _ _ (store settings) (Table.Keyed JobRecord.id)
    (fun s moment _ hKeyed => keyed_exec s moment hKeyed) _ _ h List.nodup_nil

theorem Reachable.stands {st : System} (h : Reachable settings st) (id : String) :
    Stands settings id st.shared (writes id st.history) := by
  have hBoth : Table.Keyed JobRecord.id st.shared ∧ Stands settings id st.shared (writes id st.history) := by
    refine @Machine.Reaches.logged _ _ _ _ _ _ (store settings)
      (fun rows events => Table.Keyed JobRecord.id rows ∧ Stands settings id rows (writes id events))
      ?_ _ _ h ⟨List.nodup_nil, .inl ⟨rfl, rfl⟩⟩
    rintro thread s moment rows events ⟨hKeyed, hStands⟩
    refine ⟨keyed_exec s moment hKeyed, ?_⟩
    rw [writes_concat]
    exact hStands.exec hKeyed s moment thread
  exact hBoth.2

/-- From any state on, a job that is there changes by its writes since. -/
theorem Reachable.later {st fin : System} (h : Reachable settings st)
    (hLater : (store settings).Reaches st fin) {id : String} {row : JobRecord}
    (hRow : st.shared.job id = some row) :
    ∃ later row', fin.shared.job id = some row' ∧
      writes id fin.history = writes id st.history ++ later ∧ Evolves settings row later row' := by
  have hBoth : Table.Keyed JobRecord.id fin.shared ∧ ∃ later row', fin.shared.job id = some row' ∧
      writes id fin.history = writes id st.history ++ later ∧ Evolves settings row later row' := by
    refine @Machine.Reaches.logged _ _ _ _ _ _ (store settings)
      (fun rows events => Table.Keyed JobRecord.id rows ∧ ∃ later row', rows.job id = some row' ∧
        writes id events = writes id st.history ++ later ∧ Evolves settings row later row')
      ?_ _ _ hLater ⟨h.keyed, [], row, hRow, (List.append_nil _).symm, .refl row⟩
    rintro thread s moment rows events ⟨hKeyed, later, row', hRow', hWrites, hEvolves⟩
    refine ⟨keyed_exec s moment hKeyed, ?_⟩
    rw [writes_concat, hWrites, store_exec]
    rcases exec_job hKeyed s moment thread id with ⟨hSame, hNone⟩ | ⟨_, _, _, hAbsent, -, -⟩ |
      ⟨mid, change, hMid, hHolds, -, hNext, hWrote⟩
    · exact ⟨later, row', hSame.trans hRow', by rw [hNone, Option.toList_none, List.append_nil], hEvolves⟩
    · rw [hAbsent] at hRow'
      cases hRow'
    · rw [hMid] at hRow'
      obtain rfl := Option.some.inj hRow'
      exact ⟨later ++ [(thread, change)], _, hNext, by rw [hWrote, List.append_assoc]; rfl,
        hEvolves.tail thread moment.now change hHolds⟩
  exact hBoth.2

theorem Evolves.split {row fin : JobRecord} {before after : List (Nat × Update)} {thread : Nat}
    {change : Update} (h : Evolves settings row (before ++ (thread, change) :: after) fin) :
    ∃ mid now, Evolves settings row before mid ∧ change.holds mid = true ∧
      Evolves settings (change.assign settings now mid) after fin := by
  generalize hChanges : before ++ (thread, change) :: after = changes at h
  induction h generalizing after with
  | refl => simp at hChanges
  | @tail mid changes hEarlier thread' now change' hHolds ih =>
    rcases List.eq_nil_or_concat after with rfl | ⟨after, last, rfl⟩
    · obtain ⟨rfl, hLast⟩ := List.append_inj' hChanges rfl
      obtain ⟨rfl, rfl⟩ : thread = thread' ∧ change = change' := by simpa using hLast
      exact ⟨mid, now, hEarlier, hHolds, .refl _⟩
    · rw [List.concat_eq_append, ← List.cons_append, ← List.append_assoc] at hChanges
      obtain ⟨rfl, hLast⟩ := List.append_inj' hChanges rfl
      obtain rfl : last = (thread', change') := by simpa using hLast
      obtain ⟨mid', now', hBefore, hHolds', hAfter⟩ := ih rfl
      refine ⟨mid', now', hBefore, hHolds', ?_⟩
      rw [List.concat_eq_append]
      exact hAfter.tail thread' now change' hHolds

/-- What is so of a fresh row, and stays so when an update that held writes the row. -/
structure Keeps (settings : Settings) (P : JobRecord → List (Nat × Update) → Prop) : Prop where
  fresh : ∀ id orgId spec capabilities now, P (.fresh id orgId spec capabilities now) []
  assign : ∀ row changes thread now change, change.holds row = true → P row changes →
    P (change.assign settings now row) (changes ++ [(thread, change)])

theorem Evolves.keeps {P : JobRecord → List (Nat × Update) → Prop} (hKeeps : Keeps settings P)
    {row fin : JobRecord} {earlier changes : List (Nat × Update)} (h : Evolves settings row changes fin)
    (hRow : P row earlier) : P fin (earlier ++ changes) := by
  induction h with
  | refl => rwa [List.append_nil]
  | tail _ thread now change hHolds ih =>
    rw [← List.append_assoc]
    exact hKeeps.assign _ _ thread now change hHolds ih

theorem Reachable.keeps {P : JobRecord → List (Nat × Update) → Prop} {st : System}
    (h : Reachable settings st) (hKeeps : Keeps settings P) {id : String} {row : JobRecord}
    (hRow : st.shared.job id = some row) : P row (writes id st.history) := by
  rcases h.stands id with ⟨hNone, -⟩ | ⟨orgId, spec, capabilities, now, row', hRow', hEvolves⟩
  · rw [hNone] at hRow
    cases hRow
  · rw [hRow] at hRow'
    obtain rfl := Option.some.inj hRow'
    exact hEvolves.keeps hKeeps (hKeeps.fresh id orgId spec capabilities now)

theorem Reachable.kept_at {P : JobRecord → List (Nat × Update) → Prop} {st : System}
    (h : Reachable settings st) (hKeeps : Keeps settings P) {id : String} {before after : List (Nat × Update)}
    {thread : Nat} {change : Update} (hWrites : writes id st.history = before ++ (thread, change) :: after) :
    ∃ row, P row before ∧ change.holds row = true := by
  rcases h.stands id with ⟨-, hNone⟩ | ⟨orgId, spec, capabilities, now, row, -, hEvolves⟩
  · rw [hNone] at hWrites
    simp at hWrites
  · rw [hWrites] at hEvolves
    obtain ⟨mid, _, hBefore, hHolds, -⟩ := hEvolves.split
    exact ⟨mid, hBefore.keeps hKeeps (hKeeps.fresh id orgId spec capabilities now), hHolds⟩

/-! ## The writes of one call -/

theorem Reachable.drives {st : System} (h : Reachable settings st) {thread : Nat} {call : Call}
    {at_ : Program} (hThread : st.threads[thread]? = some (call, at_)) :
    Machine.Drives (store settings) (program settings call) (Machine.eventsOf thread st.history) at_ :=
  (Machine.Reaches.sound h (Machine.Sound.init [])).drives thread call at_ hThread

/-- The event of an update that wrote its row. -/
def matched (thread : Nat) (moment : Moment) (id : String) (change : Update) :
    Event Statement Reply Moment := ⟨thread, moment, .update id change, (1 : Nat)⟩

theorem mem_writes_of_matched {id : String} {thread other : Nat} {moment : Moment} {change : Update}
    {events : List (Event Statement Reply Moment)}
    (h : matched other moment id change ∈ Machine.eventsOf thread events) :
    (thread, change) ∈ writes id events := by
  obtain ⟨hMem, hThread⟩ := List.mem_filter.mp h
  obtain rfl : other = thread := of_decide_eq_true hThread
  exact List.mem_filterMap.mpr ⟨_, hMem, if_pos ⟨rfl, rfl⟩⟩

theorem drives_updateOne {id : String} {change : Update} {events : List (Event Statement Reply Moment)}
    (h : Machine.Drives (store settings) (updateOne id change) events (.ret (.applied true))) :
    ∃ thread moment, matched thread moment id change ∈ events := by
  obtain ⟨thread, moment, (count : Nat), later, rfl, hRest⟩ := drives_stmt h
  obtain ⟨hRet, -⟩ := drives_ret hRest
  simp only [Prog.ret.injEq, Result.applied.injEq] at hRet
  obtain rfl : count = 1 := of_decide_eq_true hRet.symm
  exact ⟨thread, moment, List.mem_cons_self⟩

theorem drives_reclaimEach {cutoff : Int} {andThen : List String → Program}
    {expired : List (String × Nat × Bool)} {requeued : List String} {result : Result}
    {events : List (Event Statement Reply Moment)}
    (h : Machine.Drives (store settings) (reclaimEach settings cutoff andThen expired requeued) events
      (.ret result)) :
    ∃ requeued' earlier later, events = earlier ++ later ∧
      Machine.Drives (store settings) (andThen requeued') later (.ret result) := by
  induction expired generalizing requeued events with
  | nil => exact ⟨requeued, [], events, rfl, h⟩
  | cons row expired ih =>
    obtain ⟨thread, moment, count, later, rfl, hRest⟩ := drives_stmt h
    obtain ⟨requeued', earlier, later', rfl, hThen⟩ := ih hRest
    exact ⟨requeued', _ :: earlier, later', rfl, hThen⟩

/-- The event of reading a job's row. -/
def selected (thread : Nat) (moment : Moment) (id : String) (row : JobRecord) :
    Event Statement Reply Moment := ⟨thread, moment, .selectJob id, some row⟩

/-- The row an event read. -/
def rowRead : Event Statement Reply Moment → Option JobRecord
  | ⟨_, _, .selectJob _, row⟩ => row
  | _ => none

theorem drives_leaseClaimed {id : String} {capabilities advertised : List String} {job : LeasedJob}
    {events : List (Event Statement Reply Moment)}
    (h : Machine.Drives (store settings) (leaseClaimed settings id capabilities advertised) events
      (.ret (.leased (some job)))) :
    ∃ thread moment row, selected thread moment id row ∈ events ∧ job.id = row.id := by
  obtain ⟨thread, moment, row, later, rfl, hRest⟩ := drives_stmt h
  cases row with
  | none =>
    obtain ⟨hRet, -⟩ := drives_ret hRest
    cases hRet
  | some row =>
    refine ⟨thread, moment, row, List.mem_cons_self, ?_⟩
    simp only at hRest
    split at hRest
    · obtain ⟨hRet, -⟩ := drives_ret hRest
      cases hRet
      rfl
    · obtain ⟨_, _, _, _, -, hLast⟩ := drives_stmt hRest
      obtain ⟨hRet, -⟩ := drives_ret hLast
      cases hRet
      rfl

theorem drives_leaseEach {worker : String} {advertised : List String}
    {candidates : List (String × List String)} {job : LeasedJob}
    {events : List (Event Statement Reply Moment)}
    (h : Machine.Drives (store settings) (leaseEach settings worker advertised candidates) events
      (.ret (.leased (some job)))) :
    ∃ id thread moment thread' moment' row, matched thread moment id (.claim worker) ∈ events ∧
      selected thread' moment' id row ∈ events ∧ job.id = row.id := by
  induction candidates generalizing events with
  | nil =>
    obtain ⟨hRet, -⟩ := drives_ret h
    cases hRet
  | cons candidate candidates ih =>
    obtain ⟨id, capabilities⟩ := candidate
    -- The claim itself, or the rest of the candidates behind it.
    have hClaim {events : List (Event Statement Reply Moment)}
        (hDrives : Machine.Drives (store settings) (.stmt (.update id (.claim worker)) fun count : Nat =>
          if count = 1 then leaseClaimed settings id capabilities advertised
          else leaseEach settings worker advertised candidates) events (.ret (.leased (some job)))) :
        ∃ id thread moment thread' moment' row, matched thread moment id (.claim worker) ∈ events ∧
          selected thread' moment' id row ∈ events ∧ job.id = row.id := by
      obtain ⟨thread, moment, (count : Nat), later, rfl, hRest⟩ := drives_stmt hDrives
      split at hRest
      · rename_i hCount
        subst hCount
        obtain ⟨thread', moment', row, hMem, hId⟩ := drives_leaseClaimed hRest
        exact ⟨id, thread, moment, thread', moment', row, List.mem_cons_self, List.mem_cons_of_mem _ hMem, hId⟩
      · obtain ⟨id', thread', moment', thread'', moment'', row, hMatched, hSelected, hId⟩ := ih hRest
        exact ⟨id', thread', moment', thread'', moment'', row, List.mem_cons_of_mem _ hMatched,
          List.mem_cons_of_mem _ hSelected, hId⟩
    rw [leaseEach] at h
    split at h
    · exact ih h
    · split at h
      · exact hClaim h
      · obtain ⟨_, _, locked, later, rfl, hRest⟩ := drives_stmt h
        have hLater : ∃ id thread moment thread' moment' row,
            matched thread moment id (.claim worker) ∈ later ∧
              selected thread' moment' id row ∈ later ∧ job.id = row.id := by
          split at hRest
          · exact hClaim hRest
          · exact ih hRest
        obtain ⟨id', thread', moment', thread'', moment'', row, hMatched, hSelected, hId⟩ := hLater
        exact ⟨id', thread', moment', thread'', moment'', row, List.mem_cons_of_mem _ hMatched,
          List.mem_cons_of_mem _ hSelected, hId⟩

theorem Reachable.selected_id {st : System} (h : Reachable settings st) {thread : Nat} {moment : Moment}
    {id : String} {row : JobRecord} (hMem : selected thread moment id row ∈ st.history) : row.id = id := by
  have hAll : ∀ thread moment id row, selected thread moment id row ∈ st.history → row.id = id := by
    refine @Machine.Reaches.logged _ _ _ _ _ _ (store settings)
      (fun _ events => ∀ thread moment id row, selected thread moment id row ∈ events → row.id = id)
      ?_ _ _ h (by rintro _ _ _ _ ⟨⟩)
    intro n s e rows events hEvents thread moment id row hMem
    rcases List.mem_append.mp hMem with hMem | hMem
    · exact hEvents thread moment id row hMem
    · have hEvent := List.mem_singleton.mp hMem
      rw [store_exec] at hEvent
      cases s with
      | selectJob id' =>
        have hRow : some row = rows.job id' := congrArg rowRead hEvent
        obtain rfl : id = id' := Statement.selectJob.inj (congrArg Event.stmt hEvent)
        exact Table.find_key hRow.symm
      | insert => cases congrArg Event.stmt hEvent
      | update => cases congrArg Event.stmt hEvent
      | selectQueued => cases congrArg Event.stmt hEvent
      | lockQueued => cases congrArg Event.stmt hEvent
      | selectExpired => cases congrArg Event.stmt hEvent
      | selectResponse => cases congrArg Event.stmt hEvent
  exact hAll thread moment id row hMem

theorem Reachable.claimed {st : System} (h : Reachable settings st) {thread : Nat} {worker : String}
    {advertised : List String} {job : LeasedJob}
    (hReturned : Returned st thread (.leaseJob worker advertised) (.leased (some job))) :
    (thread, .claim worker) ∈ writes job.id st.history := by
  obtain ⟨_, _, (scan : Int × List (String × Nat × Bool)), later, hEvents, hRest⟩ :=
    drives_stmt (h.drives hReturned)
  obtain ⟨_, earlier, later', rfl, hThen⟩ := drives_reclaimEach hRest
  obtain ⟨_, _, candidates, later'', rfl, hLease⟩ := drives_stmt hThen
  obtain ⟨id, thread', moment, thread'', moment', row, hMatched, hSelected, hId⟩ := drives_leaseEach hLease
  have hMem : ∀ event ∈ later'', event ∈ Machine.eventsOf thread st.history := by
    intro event hEvent
    rw [hEvents]
    simp [hEvent]
  have hRow := h.selected_id (List.mem_of_mem_filter (hMem _ hSelected))
  rw [hId, hRow]
  exact mem_writes_of_matched (hMem _ hMatched)

end Bajutsu.Jobs
