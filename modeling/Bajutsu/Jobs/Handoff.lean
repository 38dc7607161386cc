import Bajutsu.Jobs.Lease
import Bajutsu.Lib.History

/-!
# Handoffs

A worker asks a person for a value through its job's row, one request at a time. The answer is for the
lease and the request it was given to, and one poll takes it.
-/

namespace Bajutsu.Jobs

open History Interleaving

variable {settings : Settings}

def Update.touchesLease : Update → Bool
  | .claim _ => true
  | .reclaim .. => true
  | .finish .. => true
  | _ => false

def Update.touchesHandoff : Update → Bool
  | .openHandoff _ => true
  | .answerHandoff _ => true
  | .clearResponse .. => true
  | _ => false

def Quiet (change : Nat × Update) : Prop := change.2.touchesLease = false ∧ change.2.touchesHandoff = false

/-- The worker has the lease it claimed. -/
def Leasing (worker : String) (changes : List (Nat × Update)) : Prop :=
  ∃ claimer, Since (fun _ => True) (claimer, .claim worker) (fun change => change.2.touchesLease = false) changes

/-- The request the worker opened under its lease waits for an answer. -/
def Asking (worker : String) (changes : List (Nat × Update)) : Prop :=
  ∃ opener, Since (Leasing worker) (opener, .openHandoff worker) Quiet changes

/-- The call `answer` answered that request, and nobody took the answer. -/
def Answered (worker token : String) (answer : Nat) (changes : List (Nat × Update)) : Prop :=
  Since (Asking worker) (answer, .answerHandoff token) Quiet changes

/-- The call `take` took that answer. -/
def Delivered (worker token : String) (answer take : Nat) (changes : List (Nat × Update)) : Prop :=
  Since (Answered worker token answer) (take, .clearResponse worker token) (fun _ => True) changes

/-- What the row says of the handoffs among its writes. -/
structure HandedOver (row : JobRecord) (changes : List (Nat × Update)) : Prop where
  idle : row.status ≠ .leased → row.handoffPending = false ∧ row.handoffResponse = none
  leased : row.status = .leased → ∃ worker, row.leasedBy = some worker ∧ Leasing worker changes
  pending : row.handoffPending = true → row.handoffResponse = none ∧
    ∃ worker, row.leasedBy = some worker ∧ Asking worker changes
  response : ∀ token, row.handoffResponse = some token →
    ∃ worker answer, row.leasedBy = some worker ∧ Answered worker token answer changes

theorem HandedOver.fresh (id orgId : String) (spec : PyValue.Val) (capabilities : List String) (now : Int) :
    HandedOver (.fresh id orgId spec capabilities now) [] where
  idle _ := ⟨rfl, rfl⟩
  leased h := nomatch h
  pending h := nomatch h
  response _ h := nomatch h

theorem Leasing.later {worker : String} {changes : List (Nat × Update)} (h : Leasing worker changes)
    {change : Nat × Update} (hChange : change.2.touchesLease = false) :
    Leasing worker (changes ++ [change]) :=
  h.imp fun _ hSince => hSince.later hChange

theorem HandedOver.frame {row next : JobRecord} {changes : List (Nat × Update)} (h : HandedOver row changes)
    {change : Nat × Update} (hStatus : next.status = row.status) (hBy : next.leasedBy = row.leasedBy)
    (hPending : next.handoffPending = row.handoffPending)
    (hResponse : next.handoffResponse = row.handoffResponse) (hQuiet : Quiet change) :
    HandedOver next (changes ++ [change]) := by
  constructor
  · rw [hStatus, hPending, hResponse]
    exact h.idle
  · rw [hStatus, hBy]
    intro hLeased
    obtain ⟨worker, hWorker, hLeasing⟩ := h.leased hLeased
    exact ⟨worker, hWorker, hLeasing.later hQuiet.1⟩
  · rw [hPending, hResponse, hBy]
    intro hWaits
    obtain ⟨hNone, worker, hWorker, hAsking⟩ := h.pending hWaits
    exact ⟨hNone, worker, hWorker, hAsking.imp fun _ hSince => hSince.later hQuiet⟩
  · rw [hResponse, hBy]
    intro token hToken
    obtain ⟨worker, answer, hWorker, hAnswered⟩ := h.response token hToken
    exact ⟨worker, answer, hWorker, Since.later hAnswered hQuiet⟩

theorem HandedOver.ended {next : JobRecord} (changes : List (Nat × Update)) (hStatus : next.status ≠ .leased)
    (hPending : next.handoffPending = false) (hResponse : next.handoffResponse = none) :
    HandedOver next changes where
  idle _ := ⟨hPending, hResponse⟩
  leased h := absurd h hStatus
  pending h := by
    rw [hPending] at h
    cases h
  response token h := by
    rw [hResponse] at h
    cases h

theorem HandedOver.assign {row : JobRecord} {changes : List (Nat × Update)} (h : HandedOver row changes)
    (thread : Nat) (now : Int) {change : Update} (hHolds : change.holds row = true) :
    HandedOver (change.assign settings now row) (changes ++ [(thread, change)]) := by
  cases change with
  | claim worker =>
    have hQueued : row.status = .queued := of_decide_eq_true hHolds
    obtain ⟨hPending, hResponse⟩ := h.idle (by simp [hQueued])
    constructor
    · exact fun hNot => absurd rfl hNot
    · exact fun _ => ⟨worker, rfl, thread, .here trivial⟩
    · intro hWaits
      cases hPending.symm.trans hWaits
    · intro token hToken
      cases hResponse.symm.trans hToken
  | setSpec spec => exact h.frame rfl rfl rfl rfl ⟨rfl, rfl⟩
  | renew worker => exact h.frame rfl rfl rfl rfl ⟨rfl, rfl⟩
  | reclaim cutoff previousAttempts cancelling =>
    exact .ended _ (reclaimedOutcome_ne_leased _ _ _ _) rfl rfl
  | finish outcome payload worker => exact .ended _ (by rintro ⟨⟩) rfl rfl
  | cancelQueued =>
    have hQueued : row.status = .queued := of_decide_eq_true hHolds
    obtain ⟨hPending, hResponse⟩ := h.idle (by simp [hQueued])
    exact .ended _ (by rintro ⟨⟩) hPending hResponse
  | cancelLeased => exact h.frame rfl rfl rfl rfl ⟨rfl, rfl⟩
  | openHandoff worker =>
    obtain ⟨hOwned, -⟩ := Bool.and_eq_true_iff.mp hHolds
    obtain ⟨hLeased, hBy⟩ := ownedBy_iff.mp hOwned
    obtain ⟨worker', hBy', hLeasing⟩ := h.leased hLeased
    obtain rfl := Option.some.inj (hBy.symm.trans hBy')
    constructor
    · exact fun hNot => absurd hLeased hNot
    · exact fun _ => ⟨worker, hBy, hLeasing.later rfl⟩
    · exact fun _ => ⟨rfl, worker, hBy, thread, .here hLeasing⟩
    · rintro token ⟨⟩
  | answerHandoff token =>
    simp only [Update.holds, Bool.and_eq_true, decide_eq_true_eq] at hHolds
    obtain ⟨⟨hLeased, hPending⟩, -⟩ := hHolds
    obtain ⟨-, worker, hBy, hAsking⟩ := h.pending hPending
    obtain ⟨worker', hBy', hLeasing⟩ := h.leased hLeased
    constructor
    · exact fun hNot => absurd hLeased hNot
    · exact fun _ => ⟨worker', hBy', hLeasing.later rfl⟩
    · rintro ⟨⟩
    · intro token' hToken
      obtain rfl := Option.some.inj hToken
      exact ⟨worker, thread, hBy, .here hAsking⟩
  | clearResponse worker token =>
    obtain ⟨hOwned, hToken⟩ := Bool.and_eq_true_iff.mp hHolds
    obtain ⟨hLeased, hBy⟩ := ownedBy_iff.mp hOwned
    obtain ⟨worker', hBy', hLeasing⟩ := h.leased hLeased
    constructor
    · exact fun hNot => absurd hLeased hNot
    · exact fun _ => ⟨worker', hBy', hLeasing.later rfl⟩
    · intro hWaits
      cases (h.pending hWaits).1.symm.trans (of_decide_eq_true hToken)
    · rintro token' ⟨⟩
  | saveBatch worker runArn => exact h.frame rfl rfl rfl rfl ⟨rfl, rfl⟩

theorem HandedOver.keeps : Keeps settings HandedOver where
  fresh id orgId spec capabilities now := .fresh id orgId spec capabilities now
  assign _ _ thread now _ hHolds h := h.assign thread now hHolds

theorem Reachable.answered_at_take {st : System} (h : Reachable settings st) {id worker token : String}
    {take : Nat} {before after : List (Nat × Update)}
    (hWrites : writes id st.history = before ++ (take, .clearResponse worker token) :: after) :
    ∃ answer, Answered worker token answer before := by
  obtain ⟨row, hRow, hHolds⟩ := h.kept_at HandedOver.keeps hWrites
  obtain ⟨hOwned, hToken⟩ := Bool.and_eq_true_iff.mp hHolds
  obtain ⟨worker', answer, hBy, hAnswered⟩ := hRow.response token (of_decide_eq_true hToken)
  obtain rfl := Option.some.inj ((ownedBy_iff.mp hOwned).2.symm.trans hBy)
  exact ⟨answer, hAnswered⟩

/-! ## The calls -/

theorem drives_take {id worker token : String} {events : List (Event Statement Reply Moment)}
    (h : Machine.Drives (store settings) (takeHandoffResponse id worker) events
      (.ret (.token (some token)))) :
    ∃ thread moment, matched thread moment id (.clearResponse worker token) ∈ events := by
  obtain ⟨_, _, response, later, rfl, hRest⟩ := drives_stmt h
  cases response with
  | none =>
    obtain ⟨hRet, -⟩ := drives_ret hRest
    cases hRet
  | some read =>
    obtain ⟨thread, moment, (taken : Nat), later', rfl, hLast⟩ := drives_stmt hRest
    obtain ⟨hRet, -⟩ := drives_ret hLast
    split at hRet
    · rename_i hTaken
      subst hTaken
      cases hRet
      exact ⟨thread, moment, List.mem_cons_of_mem _ List.mem_cons_self⟩
    · cases hRet

theorem mem_writes {id : String} {thread : Nat} {change : Update}
    {events : List (Event Statement Reply Moment)} (h : (thread, change) ∈ writes id events) :
    ∃ moment, matched thread moment id change ∈ Machine.eventsOf thread events := by
  obtain ⟨⟨thread', moment, s, reply⟩, hMem, hWrote⟩ := List.mem_filterMap.mp h
  cases s with
  | update id' change' =>
    simp only [wrote] at hWrote
    split at hWrote
    · rename_i hBoth
      obtain ⟨rfl, rfl⟩ := hBoth
      cases hWrote
      exact ⟨moment, List.mem_filter.mpr ⟨hMem, decide_eq_true rfl⟩⟩
    · cases hWrote
  | _ => cases hWrote

theorem countP_writes_le (id : String) (thread : Nat) (events : List (Event Statement Reply Moment)) :
    (writes id events).countP (fun change => change.1 = thread) ≤ (Machine.eventsOf thread events).length := by
  rw [writes, List.countP_filterMap, Machine.eventsOf, ← List.countP_eq_length_filter]
  apply List.countP_mono_left
  rintro ⟨thread', moment, s, reply⟩ - hWrote
  cases s with
  | update id' change =>
    simp only [wrote] at hWrote
    split at hWrote
    · exact hWrote
    · cases hWrote
  | _ => cases hWrote

/-- The statement answers no handoff. -/
def NoAnswer (s : Statement) : Prop := ∀ id token, s ≠ .update id (.answerHandoff token)

theorem reclaimEach_only {cutoff : Int} {andThen : List String → Program}
    (hThen : ∀ requeued, (andThen requeued).Only NoAnswer) (expired : List (String × Nat × Bool))
    (requeued : List String) : (reclaimEach settings cutoff andThen expired requeued).Only NoAnswer := by
  induction expired generalizing requeued with
  | nil => exact hThen requeued
  | cons row expired ih => exact ⟨(fun _ _ h => nomatch h), fun _ => ih _⟩

theorem leaseClaimed_only (id : String) (capabilities advertised : List String) :
    (leaseClaimed settings id capabilities advertised).Only NoAnswer := by
  refine ⟨(fun _ _ h => nomatch h), fun row => ?_⟩
  cases row with
  | none => exact trivial
  | some row =>
    simp only
    split
    · exact trivial
    · exact ⟨(fun _ _ h => nomatch h), fun _ => trivial⟩

theorem leaseEach_only (worker : String) (advertised : List String)
    (candidates : List (String × List String)) :
    (leaseEach settings worker advertised candidates).Only NoAnswer := by
  induction candidates with
  | nil => exact trivial
  | cons candidate candidates ih =>
    have hClaim : Prog.Only NoAnswer (.stmt (.update candidate.1 (.claim worker)) fun count : Nat =>
        if count = 1 then leaseClaimed settings candidate.1 candidate.2 advertised
        else leaseEach settings worker advertised candidates) := by
      refine ⟨(fun _ _ => by rintro ⟨⟩), fun (count : Nat) => ?_⟩
      beta_reduce
      split
      · exact leaseClaimed_only ..
      · exact ih
    rw [leaseEach]
    split
    · exact ih
    · split
      · exact hClaim
      · refine ⟨(fun _ _ => by rintro ⟨⟩), fun (locked : Bool) => ?_⟩
        beta_reduce
        split
        · exact hClaim
        · exact ih

theorem cancelTries_only (id : String) (tries : Nat) (status : Status) :
    (cancelTries id tries status).Only NoAnswer := by
  induction tries generalizing status with
  | zero => exact trivial
  | succ tries ih =>
    refine ⟨(fun _ _ h => nomatch h), fun (queued : Nat) => ?_⟩
    beta_reduce
    split
    · exact trivial
    · refine ⟨(fun _ _ h => nomatch h), fun (leased : Nat) => ?_⟩
      beta_reduce
      split
      · exact trivial
      · refine ⟨(fun _ _ h => nomatch h), fun row => ?_⟩
        cases row with
        | none => exact trivial
        | some row =>
          simp only
          split
          · exact trivial
          · exact ih _

theorem program_only {call : Call} (hCall : ∀ id token, call ≠ .answerHandoff id token) :
    (program settings call).Only NoAnswer := by
  cases call with
  | enqueueJob id orgId spec capabilities => exact ⟨(fun _ _ h => nomatch h), fun _ => trivial⟩
  | leaseJob worker advertised =>
    refine ⟨(fun _ _ h => nomatch h), fun (scan : Int × List (String × Nat × Bool)) => ?_⟩
    refine reclaimEach_only (fun _ => ?_) _ _
    exact ⟨(fun _ _ h => nomatch h), fun _ => leaseEach_only ..⟩
  | reclaimExpiredLeases =>
    refine ⟨(fun _ _ h => nomatch h), fun (scan : Int × List (String × Nat × Bool)) => ?_⟩
    refine reclaimEach_only (fun _ => ?_) _ _
    exact trivial
  | cancelJob id => exact cancelTries_only ..
  | takeHandoffResponse id worker =>
    refine ⟨(fun _ _ h => nomatch h), fun response => ?_⟩
    cases response with
    | none => exact trivial
    | some token => exact ⟨(fun _ _ h => nomatch h), fun _ => trivial⟩
  | answerHandoff id token => exact absurd rfl (hCall id token)
  | _ => exact ⟨(fun _ _ h => nomatch h), fun _ => trivial⟩

/-- Only a call of `answer_handoff` that returned true answers a handoff. -/
theorem Reachable.answer_call {st : System} (h : Reachable settings st) {id token : String} {answer : Nat}
    (hMem : (answer, .answerHandoff token) ∈ writes id st.history) :
    Returned st answer (.answerHandoff id token) (.applied true) ∧
      (writes id st.history).countP (fun change => change.1 = answer) ≤ 1 := by
  obtain ⟨moment, hEvent⟩ := mem_writes hMem
  have hSound := Machine.Reaches.sound h (Machine.Sound.init [])
  have hLess := hSound.thread _ (List.mem_of_mem_filter hEvent)
  obtain ⟨⟨call, at_⟩, hThread⟩ : ∃ thread, st.threads[answer]? = some thread :=
    ⟨_, List.getElem?_eq_getElem hLess⟩
  have hDrives := h.drives hThread
  have hIs : ∃ id' token', call = .answerHandoff id' token' := by
    by_contra hNot
    exact ((program_only fun id' token' hCall => hNot ⟨id', token', hCall⟩).drives hDrives).1 _ hEvent id token rfl
  obtain ⟨id', token', rfl⟩ := hIs
  rcases drives_stmt_cases hDrives with ⟨-, hNone⟩ | ⟨thread', moment', (count : Nat), later, hEvents, hRest⟩
  · rw [hNone] at hEvent
    cases hEvent
  · obtain ⟨rfl, rfl⟩ := drives_ret hRest
    rw [hEvents] at hEvent
    cases List.mem_singleton.mp hEvent
    refine ⟨hThread, (countP_writes_le id answer st.history).trans ?_⟩
    rw [hEvents]
    exact Nat.le_refl _

theorem Delivered.unique {worker worker' token token' : String} {answer take take' : Nat}
    {changes : List (Nat × Update)} (h : Delivered worker token answer take changes)
    (h' : Delivered worker' token' answer take' changes)
    (hOnce : changes.countP (fun change => change.1 = answer) ≤ 1) : take = take' := by
  obtain ⟨_, after, hChanges, ⟨before, later, rfl, -, hQuiet⟩, -⟩ := h
  obtain ⟨_, after', hChanges', ⟨before', later', rfl, -, hQuiet'⟩, -⟩ := h'
  rw [List.append_assoc, List.cons_append] at hChanges hChanges'
  obtain ⟨-, -, hRest⟩ := once_unique hOnce hChanges hChanges' (by simp) (by simp)
  obtain ⟨-, hTake, -⟩ := first_unique hRest hQuiet hQuiet' (fun h => nomatch h.2) (fun h => nomatch h.2)
  exact congrArg Prod.fst hTake

theorem handoff_answer_delivered (settings : Settings) {st : System} (h : Reachable settings st)
    (id : String) :
    (∀ row, st.shared.job id = some row →
      (row.status ≠ .leased → row.handoffPending = false ∧ row.handoffResponse = none) ∧
        (row.handoffPending = true → row.handoffResponse = none)) ∧
    (∀ take worker token, Returned st take (.takeHandoffResponse id worker) (.token (some token)) →
      ∃ answer, Returned st answer (.answerHandoff id token) (.applied true) ∧
        Delivered worker token answer take (writes id st.history)) ∧
    (∀ answer token, Returned st answer (.answerHandoff id token) (.applied true) →
      ∀ worker worker' take take', Delivered worker token answer take (writes id st.history) →
        Delivered worker' token answer take' (writes id st.history) → take = take') ∧
    ∀ opener worker, Returned st opener (.openHandoff id worker) (.applied true) →
      ∃ before later, writes id st.history = before ++ (opener, .openHandoff worker) :: later ∧
        ∀ upto rest, later = upto ++ rest → (∀ answer token, (answer, .answerHandoff token) ∉ upto) →
          ∀ take worker' token, (take, .clearResponse worker' token) ∉ upto := by
  refine ⟨?_, ?_, ?_, ?_⟩
  · intro row hRow
    have hHanded : HandedOver row (writes id st.history) := h.keeps HandedOver.keeps hRow
    exact ⟨hHanded.idle, fun hWaits => (hHanded.pending hWaits).1⟩
  · intro take worker token hReturned
    obtain ⟨_, _, hMatched⟩ := drives_take (h.drives hReturned)
    obtain ⟨before, after, hWrites⟩ := List.append_of_mem (mem_writes_of_matched hMatched)
    obtain ⟨answer, hAnswered⟩ := h.answered_at_take hWrites
    refine ⟨answer, (h.answer_call ?_).1, before, after, hWrites, hAnswered, fun _ _ => trivial⟩
    rw [hWrites]
    exact List.mem_append_left _ hAnswered.mem
  · intro answer token hReturned worker worker' take take' hDelivered hDelivered'
    obtain ⟨_, _, hMatched⟩ := drives_updateOne (h.drives hReturned)
    exact hDelivered.unique hDelivered' (h.answer_call (mem_writes_of_matched hMatched)).2
  · intro opener worker hReturned
    obtain ⟨_, _, hMatched⟩ := drives_updateOne (h.drives hReturned)
    obtain ⟨before, later, hWrites⟩ := List.append_of_mem (mem_writes_of_matched hMatched)
    refine ⟨before, later, hWrites, ?_⟩
    rintro upto rest rfl hNoAnswer take worker' token hMem
    obtain ⟨mid, mid', rfl⟩ := List.append_of_mem hMem
    have hSplit : writes id st.history = (before ++ (opener, .openHandoff worker) :: mid) ++
        (take, .clearResponse worker' token) :: (mid' ++ rest) := by
      rw [hWrites]
      simp
    obtain ⟨answer, hAnswered⟩ := h.answered_at_take hSplit
    rcases List.mem_cons.mp (Since.mem_of_not_quiet hAnswered fun hOpen => nomatch hOpen.2) with hEq | hMem
    · cases hEq
    · exact hNoAnswer answer token (List.mem_append_left _ hMem)

/-! ## One handoff -/

def handedOver : System :=
  after plainSettings leasedState
    ([.call (.openHandoff "1" "w")] ++ steps 2 20 1 ++ [.call (.answerHandoff "1" "code")] ++ steps 3 30 1 ++
      [.call (.takeHandoffResponse "1" "w")] ++ steps 4 40 2)

theorem handoff_answer_delivered_once :
    ∃ answer, Returned handedOver answer (.answerHandoff "1" "code") (.applied true) ∧
      Delivered "w" "code" answer 4 (writes "1" handedOver.history) := by
  have hReachable : Reachable plainSettings handedOver := leasedState_reachable.trans (reaches_after rfl)
  have hTaken : Returned handedOver 4 (.takeHandoffResponse "1" "w") (.token (some "code")) := rfl
  exact (handoff_answer_delivered plainSettings hReachable "1").2.1 4 "w" "code" hTaken

end Bajutsu.Jobs
