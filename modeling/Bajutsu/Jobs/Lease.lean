import Bajutsu.Jobs.Writes

/-!
# Leases

A job's row says how often it was leased, by whom it is held, and how it ended; the writes that made it
say the same.
-/

namespace Bajutsu.Jobs

open Interleaving

def Update.claims : Update → Bool
  | .claim _ => true
  | _ => false

def Update.reclaims : Update → Bool
  | .reclaim .. => true
  | _ => false

def Update.finishes : Update → Bool
  | .finish .. => true
  | _ => false

def holdersAfter (holders : List String) : Nat × Update → List String
  | (_, .claim worker) => holders ++ [worker]
  | (_, .reclaim ..) => []
  | (_, .finish ..) => []
  | _ => holders

/-- The workers whose lease has not been reclaimed or finished. -/
def holders (changes : List (Nat × Update)) : List String := changes.foldl holdersAfter []

def countOf (counts : Update → Bool) (changes : List (Nat × Update)) : Nat :=
  changes.countP fun change => counts change.2

variable {settings : Settings}

/-- What the row says of the writes that made it. -/
structure Leased (settings : Settings) (row : JobRecord) (changes : List (Nat × Update)) : Prop where
  attempts : row.attempts = countOf Update.reclaims changes
  queued : row.status = .queued → countOf Update.claims changes = row.attempts ∧ row.attempts < settings.maxAttempts
  leased : row.status = .leased →
    countOf Update.claims changes = row.attempts + 1 ∧ row.attempts < settings.maxAttempts
  bounded : countOf Update.claims changes ≤ settings.maxAttempts
  running : (∀ outcome, row.status ≠ .ended outcome) → countOf Update.finishes changes = 0
  finished : countOf Update.finishes changes ≤ 1
  holders : holders changes = if row.status = .leased then row.leasedBy.toList else []

theorem holders_concat (changes : List (Nat × Update)) (change : Nat × Update) :
    holders (changes ++ [change]) = holdersAfter (holders changes) change := by
  rw [holders, List.foldl_append]
  rfl

theorem countOf_concat (counts : Update → Bool) (changes : List (Nat × Update)) (change : Nat × Update) :
    countOf counts (changes ++ [change]) = countOf counts changes + if counts change.2 then 1 else 0 := by
  rw [countOf, List.countP_append, List.countP_singleton]
  rfl

theorem ownedBy_iff {row : JobRecord} {worker : String} :
    row.ownedBy worker = true ↔ row.status = .leased ∧ row.leasedBy = some worker := by
  simp [JobRecord.ownedBy]

theorem Leased.fresh (id orgId : String) (spec : PyValue.Val) (capabilities : List String) (now : Int) :
    Leased settings (.fresh id orgId spec capabilities now) [] where
  attempts := rfl
  queued _ := ⟨rfl, settings.positive⟩
  leased h := nomatch h
  bounded := Nat.zero_le _
  running _ := rfl
  finished := Nat.zero_le _
  holders := rfl

/-- A write that leaves the status, the leaseholder and the attempts alone, and is none that is counted. -/
theorem Leased.frame {row next : JobRecord} {changes : List (Nat × Update)} (h : Leased settings row changes)
    {change : Nat × Update} (hStatus : next.status = row.status) (hBy : next.leasedBy = row.leasedBy)
    (hAttempts : next.attempts = row.attempts) (hClaims : change.2.claims = false)
    (hReclaims : change.2.reclaims = false) (hFinishes : change.2.finishes = false)
    (hHolders : holdersAfter (Jobs.holders changes) change = Jobs.holders changes) :
    Leased settings next (changes ++ [change]) := by
  constructor
  · rw [countOf_concat, hReclaims, hAttempts]
    exact h.attempts
  · rw [countOf_concat, hClaims, hAttempts, hStatus]
    exact h.queued
  · rw [countOf_concat, hClaims, hAttempts, hStatus]
    exact h.leased
  · rw [countOf_concat, hClaims]
    exact h.bounded
  · rw [countOf_concat, hFinishes, hStatus]
    exact h.running
  · rw [countOf_concat, hFinishes]
    exact h.finished
  · rw [holders_concat, hHolders, hStatus, hBy]
    exact h.holders

theorem reclaimedOutcome_ne_leased (id : String) (attempts : Nat) (exhausted cancelling : Bool) :
    (reclaimedOutcome id attempts exhausted cancelling).1 ≠ .leased := by
  rw [reclaimedOutcome]
  split
  · rintro ⟨⟩
  · split <;> rintro ⟨⟩

theorem Leased.assign {row : JobRecord} {changes : List (Nat × Update)} (h : Leased settings row changes)
    (thread : Nat) (now : Int) {change : Update} (hHolds : change.holds row = true) :
    Leased settings (change.assign settings now row) (changes ++ [(thread, change)]) := by
  cases change with
  | claim worker =>
    have hQueued : row.status = .queued := of_decide_eq_true hHolds
    obtain ⟨hClaims, hLess⟩ := h.queued hQueued
    have hZero := h.running (by simp [hQueued])
    constructor
    · rw [countOf_concat]
      exact h.attempts
    · rintro ⟨⟩
    · rw [countOf_concat, hClaims]
      exact fun _ => ⟨rfl, hLess⟩
    · rw [countOf_concat, hClaims]
      exact hLess
    · rw [countOf_concat, hZero]
      exact fun _ => rfl
    · rw [countOf_concat, hZero]
      exact Nat.zero_le _
    · rw [holders_concat, h.holders, hQueued]
      rfl
  | setSpec spec => exact h.frame rfl rfl rfl rfl rfl rfl rfl
  | renew worker => exact h.frame rfl rfl rfl rfl rfl rfl rfl
  | reclaim cutoff previousAttempts cancelling =>
    simp only [Update.holds, Bool.and_eq_true, decide_eq_true_eq] at hHolds
    obtain ⟨⟨⟨hLeased, -⟩, hAttempts⟩, -⟩ := hHolds
    obtain ⟨hClaims, hLess⟩ := h.leased hLeased
    have hZero := h.running (by simp [hLeased])
    have hStatus : ∀ status, (reclaimedOutcome row.id (previousAttempts + 1)
        (settings.exhausted previousAttempts) cancelling).1 = status → status = .queued →
        previousAttempts + 1 < settings.maxAttempts := by
      rintro status rfl hQueued
      rw [reclaimedOutcome] at hQueued
      split at hQueued
      · cases hQueued
      · split at hQueued
        · cases hQueued
        · rename_i hNot
          simpa [Settings.exhausted] using hNot
    have hNotLeased := reclaimedOutcome_ne_leased row.id (previousAttempts + 1)
      (settings.exhausted previousAttempts) cancelling
    constructor
    · rw [countOf_concat, ← h.attempts, hAttempts]
      rfl
    · rw [countOf_concat, hClaims, hAttempts]
      exact fun hQueued => ⟨rfl, hStatus _ rfl hQueued⟩
    · exact fun hLeased' => absurd hLeased' hNotLeased
    · rw [countOf_concat, hClaims]
      exact hLess
    · rw [countOf_concat, hZero]
      exact fun _ => rfl
    · rw [countOf_concat, hZero]
      exact Nat.zero_le _
    · rw [holders_concat]
      exact (if_neg hNotLeased).symm
  | finish outcome payload worker =>
    have hLeased : row.status = .leased := by
      cases worker with
      | none => exact of_decide_eq_true hHolds
      | some worker => exact (ownedBy_iff.mp hHolds).1
    obtain ⟨hClaims, hLess⟩ := h.leased hLeased
    have hZero := h.running (by simp [hLeased])
    constructor
    · rw [countOf_concat]
      exact h.attempts
    · rintro ⟨⟩
    · rintro ⟨⟩
    · rw [countOf_concat, hClaims]
      exact hLess
    · exact fun hNot => absurd rfl (hNot outcome)
    · rw [countOf_concat, hZero]
      exact Nat.le_refl _
    · rw [holders_concat]
      rfl
  | cancelQueued =>
    have hQueued : row.status = .queued := of_decide_eq_true hHolds
    have hZero := h.running (by simp [hQueued])
    constructor
    · rw [countOf_concat]
      exact h.attempts
    · rintro ⟨⟩
    · rintro ⟨⟩
    · rw [countOf_concat]
      exact h.bounded
    · exact fun hNot => absurd rfl (hNot .cancelled)
    · rw [countOf_concat, hZero]
      exact Nat.zero_le _
    · rw [holders_concat]
      change Jobs.holders changes = _
      rw [h.holders, hQueued]
      rfl
  | cancelLeased => exact h.frame rfl rfl rfl rfl rfl rfl rfl
  | openHandoff worker => exact h.frame rfl rfl rfl rfl rfl rfl rfl
  | answerHandoff token => exact h.frame rfl rfl rfl rfl rfl rfl rfl
  | clearResponse worker token => exact h.frame rfl rfl rfl rfl rfl rfl rfl
  | saveBatch worker runArn => exact h.frame rfl rfl rfl rfl rfl rfl rfl

theorem Leased.keeps : Keeps settings (Leased settings) where
  fresh id orgId spec capabilities now := .fresh id orgId spec capabilities now
  assign _ _ thread now _ hHolds h := h.assign thread now hHolds

theorem Reachable.leased {st : System} (h : Reachable settings st) {id : String} {row : JobRecord}
    (hRow : st.shared.job id = some row) : Leased settings row (writes id st.history) :=
  h.keeps Leased.keeps hRow

theorem ended_assign {row : JobRecord} {outcome : Outcome} (hEnded : row.status = .ended outcome)
    {change : Update} (hHolds : change.holds row = true) (now : Int) :
    (change.assign settings now row).status = .ended outcome ∧
      (change.assign settings now row).result = row.result := by
  cases change with
  | setSpec spec => exact ⟨hEnded, rfl⟩
  | finish other payload worker =>
    exfalso
    cases worker <;> simp [Update.holds, JobRecord.ownedBy, hEnded] at hHolds
  | _ =>
    exfalso
    simp [Update.holds, JobRecord.ownedBy, hEnded] at hHolds

theorem Evolves.ended {row fin : JobRecord} {changes : List (Nat × Update)}
    (h : Evolves settings row changes fin) {outcome : Outcome} (hEnded : row.status = .ended outcome) :
    fin.status = .ended outcome ∧ fin.result = row.result := by
  induction h with
  | refl => exact ⟨hEnded, rfl⟩
  | tail _ thread now change hHolds ih =>
    obtain ⟨hStatus, hResult⟩ := ended_assign ih.1 hHolds now
    exact ⟨hStatus, hResult.trans ih.2⟩

theorem eq_of_countP_le_one {α : Type} {p : α → Bool} {l : List α} (h : l.countP p ≤ 1) {a b : α}
    (ha : a ∈ l) (hb : b ∈ l) (hpa : p a = true) (hpb : p b = true) : a = b := by
  rw [List.countP_eq_length_filter] at h
  have hMemA : a ∈ l.filter p := List.mem_filter.mpr ⟨ha, hpa⟩
  have hMemB : b ∈ l.filter p := List.mem_filter.mpr ⟨hb, hpb⟩
  rcases hFilter : l.filter p with _ | ⟨x, _ | ⟨y, rest⟩⟩
  · rw [hFilter] at hMemA
    cases hMemA
  · rw [hFilter] at hMemA hMemB
    rw [List.mem_singleton.mp hMemA, List.mem_singleton.mp hMemB]
  · rw [hFilter] at h
    simp at h

/-! ## Calls that finish or lease a job -/

/-- The calls that end a job with its result. -/
def Call.finishes (id : String) : Call → Prop
  | .completeJob id' _ _ => id' = id
  | .failJob id' _ _ => id' = id
  | .cancelLeasedJob id' _ _ => id' = id
  | _ => False

theorem Reachable.finished {st : System} (h : Reachable settings st) {id : String} {thread : Nat}
    {call : Call} (hCall : call.finishes id) (hReturned : Returned st thread call (.applied true)) :
    ∃ change, (thread, change) ∈ writes id st.history ∧ change.finishes = true := by
  have hDrives := h.drives hReturned
  cases call with
  | completeJob id' result worker =>
    obtain rfl : id' = id := hCall
    obtain ⟨_, _, hMatched⟩ := drives_updateOne hDrives
    exact ⟨_, mem_writes_of_matched hMatched, rfl⟩
  | failJob id' error worker =>
    obtain rfl : id' = id := hCall
    obtain ⟨_, _, hMatched⟩ := drives_updateOne hDrives
    exact ⟨_, mem_writes_of_matched hMatched, rfl⟩
  | cancelLeasedJob id' result worker =>
    obtain rfl : id' = id := hCall
    obtain ⟨_, _, hMatched⟩ := drives_updateOne hDrives
    exact ⟨_, mem_writes_of_matched hMatched, rfl⟩
  | _ => exact hCall.elim

/-- The call returned a lease of the job. -/
def returnedLease (st : System) (id : String) (thread : Nat) : Bool :=
  match st.threads[thread]? with
  | some (.leaseJob _ _, .ret (.leased (some job))) => job.id = id
  | _ => false

/-- The lease calls that returned the job. -/
def leasesOf (st : System) (id : String) : List Nat :=
  (List.range st.threads.length).filter (returnedLease st id)

theorem returnedLease_iff {st : System} {id : String} {thread : Nat} :
    returnedLease st id thread = true ↔ ∃ worker advertised job, job.id = id ∧
      Returned st thread (.leaseJob worker advertised) (.leased (some job)) := by
  constructor
  · intro h
    rw [returnedLease] at h
    split at h
    · rename_i worker advertised job hThread
      exact ⟨worker, advertised, job, of_decide_eq_true h, hThread⟩
    · cases h
  · rintro ⟨worker, advertised, job, hId, hReturned⟩
    rw [returnedLease, show st.threads[thread]? = _ from hReturned]
    exact decide_eq_true hId

theorem Reachable.leases_le {st : System} (h : Reachable settings st) (id : String) :
    (leasesOf st id).length ≤ countOf Update.claims (writes id st.history) := by
  have hNodup : (leasesOf st id).Nodup := List.Nodup.filter _ List.nodup_range
  have hSubset : leasesOf st id ⊆
      ((writes id st.history).filter fun change => change.2.claims).map Prod.fst := by
    intro thread hMem
    obtain ⟨worker, advertised, job, rfl, hReturned⟩ := returnedLease_iff.mp (List.mem_filter.mp hMem).2
    exact List.mem_map.mpr ⟨_, List.mem_filter.mpr ⟨h.claimed hReturned, rfl⟩, rfl⟩
  have hLength := (List.subperm_of_subset hNodup hSubset).length_le
  rwa [List.length_map, ← List.countP_eq_length_filter] at hLength

theorem Reachable.claims_le {st : System} (h : Reachable settings st) (id : String) :
    countOf Update.claims (writes id st.history) ≤ settings.maxAttempts := by
  rcases hRow : st.shared.job id with _ | row
  · rcases h.stands id with ⟨-, hWrites⟩ | ⟨_, _, _, _, row, hRow', -⟩
    · rw [hWrites]
      exact Nat.zero_le _
    · rw [hRow] at hRow'
      cases hRow'
  · exact (h.leased hRow).bounded

theorem Reachable.free_at_claim {st : System} (h : Reachable settings st) {id : String}
    {before after : List (Nat × Update)} {thread : Nat} {worker : String}
    (hWrites : writes id st.history = before ++ (thread, .claim worker) :: after) : holders before = [] := by
  obtain ⟨mid, hMid, hHolds⟩ := h.kept_at Leased.keeps hWrites
  have hQueued : mid.status = .queued := of_decide_eq_true hHolds
  rw [hMid.holders, hQueued]
  rfl

theorem Reachable.holders_eq {st : System} (h : Reachable settings st) (id : String) :
    holders (writes id st.history) = match st.shared.job id with
      | some row => if row.status = .leased then row.leasedBy.toList else []
      | none => [] := by
  rcases hRow : st.shared.job id with _ | row
  · rcases h.stands id with ⟨-, hWrites⟩ | ⟨_, _, _, _, row, hRow', -⟩
    · rw [hWrites]
      rfl
    · rw [hRow] at hRow'
      cases hRow'
  · exact (h.leased hRow).holders

theorem job_lease_safe (settings : Settings) {st fin : System} (h : Reachable settings st)
    (hLater : (store settings).Reaches st fin) (id : String) :
    (∀ row outcome, st.shared.job id = some row → row.status = .ended outcome →
      ∃ row', fin.shared.job id = some row' ∧ row'.status = .ended outcome ∧ row'.result = row.result) ∧
    (∀ n m c d, c.finishes id → d.finishes id → Returned st n c (.applied true) →
      Returned st m d (.applied true) → n = m) ∧
    ((holders (writes id st.history)).length ≤ 1 ∧
      ∀ n worker advertised job, Returned st n (.leaseJob worker advertised) (.leased (some job)) →
        job.id = id → ∃ before after, writes id st.history = before ++ (n, .claim worker) :: after ∧
          holders before = []) ∧
    (∀ row, st.shared.job id = some row →
      row.attempts = countOf Update.reclaims (writes id st.history)) ∧
    (leasesOf st id).length ≤ settings.maxAttempts := by
  refine ⟨?_, ?_, ⟨?_, ?_⟩, fun row hRow => (h.leased hRow).attempts,
    (h.leases_le id).trans (h.claims_le id)⟩
  · intro row outcome hRow hEnded
    obtain ⟨later, row', hRow', -, hEvolves⟩ := h.later hLater hRow
    exact ⟨row', hRow', hEvolves.ended hEnded⟩
  · intro n m c d hc hd hn hm
    obtain ⟨change, hChange, hFinishes⟩ := h.finished hc hn
    obtain ⟨change', hChange', hFinishes'⟩ := h.finished hd hm
    have hOnce : countOf Update.finishes (writes id st.history) ≤ 1 := by
      rcases h.stands id with ⟨-, hNone⟩ | ⟨_, _, _, _, row, hRow, -⟩
      · rw [hNone]
        exact Nat.zero_le _
      · exact (h.leased hRow).finished
    exact congrArg Prod.fst (eq_of_countP_le_one hOnce hChange hChange' hFinishes hFinishes')
  · rw [h.holders_eq id]
    split
    · rename_i row _
      split
      · cases row.leasedBy <;> simp
      · exact Nat.zero_le _
    · exact Nat.zero_le _
  · rintro n worker advertised job hReturned rfl
    obtain ⟨before, after, hWrites⟩ := List.append_of_mem (h.claimed hReturned)
    exact ⟨before, after, hWrites, h.free_at_claim hWrites⟩

/-! ## One job, leased and completed -/

def plainSettings : Settings where
  leaseTimeout := 120
  maxAttempts := 3
  positive := by decide
  sqlite := true
  canServe _ _ := true
  stampProvenance spec _ _ := spec

def moment (now : Int) : Moment := ⟨now, fun _ => false⟩

/-- `n` statements of one call, at one time. -/
def steps (thread : Nat) (now : Int) (n : Nat) : List (Label Moment Call) :=
  List.replicate n (.run thread (moment now))

def leasedOnce : List (Label Moment Call) :=
  [.call (.enqueueJob "1" "" (.dict []) [])] ++ steps 0 0 1 ++
    [.call (.leaseJob "w" [])] ++ steps 1 10 4

/-- Where the run of these labels ends. -/
def after (settings : Settings) (st : System) (labels : List (Label Moment Call)) : System :=
  ((store settings).run st labels).getD st

theorem reaches_after {settings : Settings} {st : System} {labels : List (Label Moment Call)}
    (h : ((store settings).run st labels).isSome = true) :
    (store settings).Reaches st (after settings st labels) := by
  obtain ⟨fin, hRun⟩ := Option.isSome_iff_exists.mp h
  rw [after, hRun]
  exact Machine.Reaches.of_run hRun

def leasedState : System := after plainSettings (.init []) leasedOnce

theorem leasedState_reachable : Reachable plainSettings leasedState := reaches_after rfl

theorem job_lease_safe_once :
    (holders (writes "1" leasedState.history)).length ≤ 1 ∧ (leasesOf leasedState "1").length ≤ 3 := by
  have hSafe := job_lease_safe plainSettings leasedState_reachable (.refl _) "1"
  exact ⟨hSafe.2.2.1.1, hSafe.2.2.2.2⟩

example : (leasesOf leasedState "1").length = 1 := by decide +kernel

end Bajutsu.Jobs
