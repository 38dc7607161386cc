import Bajutsu.Jobs.Lease

/-!
# Stale calls

A worker's call carries the job and the worker, not the lease it was made for. It is ignored once that
lease was reclaimed, unless the same worker has the job again.
-/

namespace Bajutsu.Jobs

open Interleaving

variable {settings : Settings}

/-- The calls a worker makes for a job it holds. -/
def Call.carries (id worker : String) : Call → Prop
  | .heartbeatJob id' worker' => id' = id ∧ worker' = worker
  | .completeJob id' _ worker' => id' = id ∧ worker' = some worker
  | .failJob id' _ worker' => id' = id ∧ worker' = some worker
  | .cancelLeasedJob id' _ worker' => id' = id ∧ worker' = worker
  | .openHandoff id' worker' => id' = id ∧ worker' = worker
  | .takeHandoffResponse id' worker' => id' = id ∧ worker' = worker
  | .saveBatchRunArn id' _ worker' => id' = id ∧ worker' = worker
  | _ => False

/-- A reclaim ended a lease of the worker. -/
def Lost (changes : List (Nat × Update)) (worker : String) : Prop :=
  ∃ before thread cutoff previousAttempts cancelling later,
    changes = before ++ (thread, .reclaim cutoff previousAttempts cancelling) :: later ∧
      worker ∈ holders before

/-- No worker is given the job again after a reclaim ended its lease. -/
def NeverBack (changes : List (Nat × Update)) : Prop :=
  ∀ before thread worker later, changes = before ++ (thread, .claim worker) :: later → ¬Lost before worker

theorem NeverBack.not_holds {changes : List (Nat × Update)} (h : NeverBack changes) {worker : String}
    (hLost : Lost changes worker) : worker ∉ holders changes := by
  obtain ⟨before, thread, cutoff, previousAttempts, cancelling, later, rfl, hHeld⟩ := hLost
  induction later using List.reverseRecOn with
  | nil =>
    rw [holders_concat]
    exact List.not_mem_nil
  | append_singleton later change ih =>
    rw [← List.cons_append, ← List.append_assoc] at h ⊢
    have hLost : Lost (before ++ (thread, .reclaim cutoff previousAttempts cancelling) :: later) worker :=
      ⟨before, thread, cutoff, previousAttempts, cancelling, later, rfl, hHeld⟩
    have hRest := ih fun before' thread' worker' later' hEq => h before' thread' worker' (later' ++ [change])
      (by rw [hEq]; simp)
    rw [holders_concat]
    obtain ⟨thread', change⟩ := change
    cases change with
    | claim other =>
      have hOther : other ≠ worker := by
        rintro rfl
        exact h _ thread' other [] rfl hLost
      simp only [holdersAfter, List.mem_append, List.mem_singleton]
      rintro (hMem | rfl)
      · exact hRest hMem
      · exact hOther rfl
    | reclaim cutoff' previousAttempts' cancelling' => exact List.not_mem_nil
    | finish outcome payload worker' => exact List.not_mem_nil
    | _ => exact hRest

theorem Reachable.not_owned {st : System} (h : Reachable settings st) {id worker : String}
    (hNot : worker ∉ holders (writes id st.history)) {row : JobRecord} (hRow : st.shared.job id = some row) :
    row.ownedBy worker = false := by
  rw [Bool.eq_false_iff]
  intro hOwned
  obtain ⟨hLeased, hBy⟩ := ownedBy_iff.mp hOwned
  apply hNot
  rw [h.holders_eq id, hRow]
  simp [hLeased, hBy]

/-- The updates that ask for the worker's lease. -/
def Update.asks (worker : String) (change : Update) : Prop :=
  ∀ row : JobRecord, change.holds row = true → row.ownedBy worker = true

theorem drives_updateOne_cases {id : String} {change : Update} {events : List (Event Statement Reply Moment)}
    {at_ : Program} (h : Machine.Drives (store settings) (updateOne id change) events at_) :
    at_ = updateOne id change ∨ ∃ applied, at_ = .ret (.applied applied) := by
  rcases drives_stmt_cases h with ⟨rfl, -⟩ | ⟨_, _, _, _, -, hRest⟩
  · exact .inl rfl
  · exact .inr ⟨_, (drives_ret hRest).1⟩

theorem drives_take_cases {id worker : String} {events : List (Event Statement Reply Moment)}
    {at_ : Program} (h : Machine.Drives (store settings) (takeHandoffResponse id worker) events at_) :
    at_ = takeHandoffResponse id worker ∨
      (∃ token, at_ = .stmt (.update id (.clearResponse worker token)) fun taken : Nat =>
        .ret (.token (if taken = 1 then some token else none))) ∨ ∃ token, at_ = .ret (.token token) := by
  rcases drives_stmt_cases h with ⟨rfl, -⟩ | ⟨_, _, response, _, -, hRest⟩
  · exact .inl rfl
  · cases response with
    | none => exact .inr (.inr ⟨none, (drives_ret hRest).1⟩)
    | some token =>
      rcases drives_stmt_cases hRest with ⟨rfl, -⟩ | ⟨_, _, _, _, -, hLast⟩
      · exact .inr (.inl ⟨token, rfl⟩)
      · exact .inr (.inr ⟨_, (drives_ret hLast).1⟩)

/-- What a worker's call that is one update of the row asks for. -/
def Call.update (call : Call) (worker : String) : Option Update :=
  match call with
  | .heartbeatJob _ _ => some (.renew worker)
  | .completeJob _ result _ => some (.finish .done result (some worker))
  | .failJob _ error _ => some (.finish .failed (.dict [("error", .str error)]) (some worker))
  | .cancelLeasedJob _ result _ => some (.finish .cancelled result (some worker))
  | .saveBatchRunArn _ runArn _ => some (.saveBatch worker runArn)
  | _ => none

theorem Call.update_holds {call : Call} {worker : String} {change : Update}
    (h : call.update worker = some change) (row : JobRecord) : change.holds row = row.ownedBy worker := by
  cases call <;> cases h <;> rfl

theorem Call.program_update {call : Call} {id worker : String} (hCarries : call.carries id worker)
    {change : Update} (h : call.update worker = some change) :
    program settings call = updateOne id change := by
  cases call <;> cases h <;> obtain ⟨rfl, rfl⟩ := hCarries <;> rfl

/-- The statement of a worker's call: an update that asks for its lease, or the read of a handoff. -/
theorem carried_statement {id worker : String} {call : Call} (hCarries : call.carries id worker)
    {events : List (Event Statement Reply Moment)} {at_ : Program}
    (h : Machine.Drives (store settings) (program settings call) events at_) :
    (∃ change, change.asks worker ∧ at_ = updateOne id change) ∨ at_ = takeHandoffResponse id worker ∨
      (∃ token, at_ = .stmt (.update id (.clearResponse worker token)) fun taken : Nat =>
        .ret (.token (if taken = 1 then some token else none))) ∨ ∃ result, at_ = .ret result := by
  have hUpdate {change : Update} (hAsks : change.asks worker)
      (hDrives : Machine.Drives (store settings) (updateOne id change) events at_) :
      (∃ change, change.asks worker ∧ at_ = updateOne id change) ∨ at_ = takeHandoffResponse id worker ∨
        (∃ token, at_ = .stmt (.update id (.clearResponse worker token)) fun taken : Nat =>
          .ret (.token (if taken = 1 then some token else none))) ∨ ∃ result, at_ = .ret result := by
    rcases drives_updateOne_cases hDrives with rfl | ⟨applied, rfl⟩
    · exact .inl ⟨change, hAsks, rfl⟩
    · exact .inr (.inr (.inr ⟨_, rfl⟩))
  cases hChange : call.update worker with
  | some change =>
    rw [Call.program_update hCarries hChange] at h
    exact hUpdate (fun row hRow => (Call.update_holds hChange row).symm.trans hRow) h
  | none =>
    cases call with
    | openHandoff =>
      obtain ⟨rfl, rfl⟩ := hCarries
      exact @hUpdate (.openHandoff _) (fun _ hRow => (Bool.and_eq_true_iff.mp hRow).1) h
    | takeHandoffResponse =>
      obtain ⟨rfl, rfl⟩ := hCarries
      rcases drives_take_cases h with rfl | ⟨token, rfl⟩ | ⟨token, rfl⟩
      · exact .inr (.inl rfl)
      · exact .inr (.inr (.inl ⟨token, rfl⟩))
      · exact .inr (.inr (.inr ⟨_, rfl⟩))
    | heartbeatJob => cases hChange
    | completeJob => cases hChange
    | failJob => cases hChange
    | cancelLeasedJob => cases hChange
    | saveBatchRunArn => cases hChange
    | _ => exact hCarries.elim

theorem Reachable.ignored {st : System} (h : Reachable settings st) {id worker : String}
    (hNot : worker ∉ holders (writes id st.history)) {change : Update} (hAsks : change.asks worker)
    (moment : Moment) :
    (exec settings (.update id change) moment st.shared).1.job id = st.shared.job id ∧
      (exec settings (.update id change) moment st.shared).2 = (0 : Nat) := by
  rcases @Table.updateOne_cases _ _ _ JobRecord.id change.holds (change.assign settings moment.now) st.shared
    h.keyed (fun row => change.assign_id moment.now row) id with ⟨row, hRow, hHolds, -, -⟩ | ⟨-, hFind, hCount⟩
  · have hOwned := hAsks row hHolds
    rw [h.not_owned hNot hRow] at hOwned
    cases hOwned
  · exact ⟨hFind, hCount⟩

theorem run_cases {st fin : System} {n : Nat} {moment : Moment} {call : Call} {at_ : Program}
    (hThread : st.threads[n]? = some (call, at_))
    (hStep : (store settings).step st (.run n moment) = some fin) :
    ∃ s rest, at_ = .stmt s rest ∧ fin.shared = (exec settings s moment st.shared).1 ∧
      fin.threads[n]? = some (call, rest (exec settings s moment st.shared).2) := by
  rw [Machine.step, hThread] at hStep
  cases at_ with
  | ret result => cases hStep
  | stmt s rest =>
    cases hStep
    exact ⟨s, rest, rfl, rfl, List.getElem?_set_self (List.getElem?_eq_some_iff.mp hThread).1⟩

theorem returned_inj {st : System} {n : Nat} {call : Call} {at_ : Program} {result result' : Result}
    (hThread : st.threads[n]? = some (call, at_)) (hAt : at_ = .ret result)
    (h : Returned st n call result') : result' = result := by
  rw [Returned, hThread, hAt] at h
  cases h
  rfl

/-- A call of a worker that does not have the job changes nothing and returns no success. -/
theorem Reachable.call_ignored {st fin : System} (h : Reachable settings st) {id worker : String}
    (hNot : worker ∉ holders (writes id st.history)) {n : Nat} {call : Call} {at_ : Program}
    (hThread : st.threads[n]? = some (call, at_)) (hCarries : call.carries id worker) {moment : Moment}
    (hStep : (store settings).step st (.run n moment) = some fin) :
    fin.shared.job id = st.shared.job id ∧
      ∀ result, Returned fin n call result → result = .applied false ∨ result = .token none := by
  obtain ⟨s, rest, hStmt, hShared, hNext⟩ := run_cases hThread hStep
  rw [hShared]
  rcases carried_statement hCarries (h.drives hThread) with ⟨change, hAsks, hAt⟩ | hAt | ⟨token, hAt⟩ | ⟨_, hAt⟩
  · obtain ⟨rfl, hRest⟩ := Prog.stmt.inj (hStmt.symm.trans hAt)
    obtain ⟨hRow, hCount⟩ := h.ignored hNot hAsks moment
    refine ⟨hRow, fun result hReturned => .inl ?_⟩
    rw [eq_of_heq hRest, hCount] at hNext
    exact returned_inj hNext rfl hReturned
  · obtain ⟨rfl, hRest⟩ := Prog.stmt.inj (hStmt.symm.trans hAt)
    refine ⟨rfl, fun result hReturned => .inr ?_⟩
    have hNone : (exec settings (.selectResponse id worker) moment st.shared).2 = (none : Option String) := by
      refine Option.bind_eq_none_iff.mpr fun row hRow => ?_
      rw [h.not_owned hNot hRow]
      rfl
    rw [eq_of_heq hRest, hNone] at hNext
    exact returned_inj hNext rfl hReturned
  · obtain ⟨rfl, hRest⟩ := Prog.stmt.inj (hStmt.symm.trans hAt)
    obtain ⟨hRow, hCount⟩ := @Reachable.ignored _ _ h _ _ hNot (.clearResponse worker token)
      (fun _ hRow => (Bool.and_eq_true_iff.mp hRow).1) moment
    refine ⟨hRow, fun result hReturned => .inr ?_⟩
    rw [eq_of_heq hRest, hCount] at hNext
    exact returned_inj hNext rfl hReturned
  · cases hStmt.symm.trans hAt

theorem Reachable.call_applied {st fin : System} (h : Reachable settings st) {id worker : String}
    (hHolds : worker ∈ holders (writes id st.history)) {n : Nat} {call : Call} {at_ : Program}
    (hThread : st.threads[n]? = some (call, at_)) (hCarries : call.carries id worker) {change : Update}
    (hUpdate : call.update worker = some change) {moment : Moment}
    (hStep : (store settings).step st (.run n moment) = some fin) : Returned fin n call (.applied true) := by
  obtain ⟨s, rest, hStmt, -, hNext⟩ := run_cases hThread hStep
  have hDrives := h.drives hThread
  rw [Call.program_update hCarries hUpdate] at hDrives
  rcases drives_updateOne_cases hDrives with hAt | ⟨_, hAt⟩
  · obtain ⟨rfl, hRest⟩ := Prog.stmt.inj (hStmt.symm.trans hAt)
    have hRow : ∃ row, st.shared.job id = some row ∧ row.ownedBy worker = true := by
      rw [h.holders_eq id] at hHolds
      split at hHolds
      · rename_i row hRow
        split at hHolds
        · rename_i hLeased
          exact ⟨row, hRow, ownedBy_iff.mpr ⟨hLeased, Option.mem_toList.mp hHolds⟩⟩
        · cases hHolds
      · cases hHolds
    obtain ⟨row, hRow, hOwned⟩ := hRow
    rcases @Table.updateOne_cases _ _ _ JobRecord.id change.holds (change.assign settings moment.now) st.shared
      h.keyed (fun row => change.assign_id moment.now row) id with ⟨-, -, -, -, hCount⟩ | ⟨hNone, -, -⟩
    · have hReply : (exec settings (.update id change) moment st.shared).2 = (1 : Nat) := hCount
      rw [eq_of_heq hRest, hReply] at hNext
      exact hNext
    · have hFalse := hNone row hRow
      rw [Call.update_holds hUpdate, hOwned] at hFalse
      cases hFalse
  · cases hStmt.symm.trans hAt

/-- A call of a worker whose lease was reclaimed is ignored while the worker does not have the job again,
and in a run that never gives a job back to a worker that lost it that is always. An update of a worker
that has the job again is applied. -/
theorem stale_call_ignored (settings : Settings) {st fin : System} (h : Reachable settings st)
    {id worker : String} (hLost : Lost (writes id st.history) worker) {n : Nat} {call : Call} {at_ : Program}
    (hThread : st.threads[n]? = some (call, at_)) (hCarries : call.carries id worker) {moment : Moment}
    (hStep : (store settings).step st (.run n moment) = some fin) :
    (NeverBack (writes id st.history) → worker ∉ holders (writes id st.history)) ∧
    (worker ∉ holders (writes id st.history) → fin.shared.job id = st.shared.job id ∧
      ∀ result, Returned fin n call result → result = .applied false ∨ result = .token none) ∧
    ((call.update worker).isSome →
      (Returned fin n call (.applied false) ↔ worker ∉ holders (writes id st.history))) := by
  refine ⟨fun hNever => hNever.not_holds hLost, fun hNot => h.call_ignored hNot hThread hCarries hStep, ?_⟩
  intro hSome
  obtain ⟨change, hUpdate⟩ := Option.isSome_iff_exists.mp hSome
  constructor
  · intro hFalse hHolds
    have hTrue := h.call_applied hHolds hThread hCarries hUpdate hStep
    rw [Returned, hFalse] at hTrue
    cases hTrue
  · intro hNot
    obtain ⟨s, rest, hStmt, -, hNext⟩ := run_cases hThread hStep
    have hDrives := h.drives hThread
    rw [Call.program_update hCarries hUpdate] at hDrives
    rcases drives_updateOne_cases hDrives with hAt | ⟨_, hAt⟩
    · obtain ⟨rfl, hRest⟩ := Prog.stmt.inj (hStmt.symm.trans hAt)
      obtain ⟨-, hCount⟩ := h.ignored hNot
        (fun row hRow => (Call.update_holds hUpdate row).symm.trans hRow) moment
      rw [eq_of_heq hRest, hCount] at hNext
      exact hNext
    · cases hStmt.symm.trans hAt

/-! ## A heartbeat that arrives late -/

def heartbeatSent : System := after plainSettings leasedState [.call (.heartbeatJob "1" "w")]

/-- The lease expires, and a sweep puts the job back. -/
def reclaimedState : System :=
  after plainSettings heartbeatSent ([.call .reclaimExpiredLeases] ++ steps 3 500 2)

/-- The lease expires, and the same worker leases the job again. -/
def leasedAgain : System :=
  after plainSettings heartbeatSent ([.call (.leaseJob "w" [])] ++ steps 3 500 5)

theorem heartbeatSent_reachable : Reachable plainSettings heartbeatSent :=
  leasedState_reachable.trans (reaches_after rfl)

/-- The heartbeat of the first lease renews the second one. -/
theorem stale_heartbeat_renews :
    ¬∀ (settings : Settings) (issued st fin : System), Reachable settings issued →
      (store settings).Reaches issued st → ∀ (id worker : String) (n : Nat) (call : Call) (moment : Moment)
        (later : List (Nat × Update)), worker ∈ holders (writes id issued.history) →
      issued.threads[n]? = some (call, program settings call) → call.carries id worker →
      writes id st.history = writes id issued.history ++ later → countOf Update.reclaims later ≠ 0 →
      (store settings).step st (.run n moment) = some fin → fin.shared.job id = st.shared.job id ∧
        ∀ result, Returned fin n call result → result = .applied false ∨ result = .token none := by
  intro hAll
  have hAgain : (store plainSettings).Reaches heartbeatSent leasedAgain := reaches_after rfl
  obtain ⟨hRow, -⟩ := hAll plainSettings heartbeatSent leasedAgain _ heartbeatSent_reachable hAgain "1" "w" 2
    (.heartbeatJob "1" "w") (moment 510) [(3, .reclaim 380 0 false), (3, .claim "w")]
    (List.mem_singleton.mpr rfl) rfl ⟨rfl, rfl⟩ rfl (by decide) rfl
  have hTime := congrArg (Option.map JobRecord.leasedAt) hRow
  revert hTime
  decide +kernel

theorem stale_call_ignored_reclaimed :
    (after plainSettings reclaimedState (steps 2 510 1)).shared.job "1" = reclaimedState.shared.job "1" := by
  have hReachable : Reachable plainSettings reclaimedState := heartbeatSent_reachable.trans (reaches_after rfl)
  have hThread : reclaimedState.threads[2]? = some (.heartbeatJob "1" "w", updateOne "1" (.renew "w")) := rfl
  have hLost : Lost (writes "1" reclaimedState.history) "w" :=
    ⟨[(1, .claim "w")], 3, 380, 0, false, [], rfl, List.mem_singleton.mpr rfl⟩
  have hStep : (store plainSettings).step reclaimedState (.run 2 (moment 510)) =
      some (after plainSettings reclaimedState (steps 2 510 1)) := rfl
  have hAll := stale_call_ignored plainSettings hReachable hLost hThread ⟨rfl, rfl⟩ hStep
  exact (hAll.2.1 List.not_mem_nil).1

end Bajutsu.Jobs
