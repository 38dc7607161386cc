import Bajutsu.Jobs.Lease

/-!
# Cancels

A cancel that reached a job stays with it: the job is not leased again, and a reclaim ends it cancelled.
-/

namespace Bajutsu.Jobs

open Interleaving

variable {settings : Settings}

/-- The job is held by a worker that was asked to stop, or has ended. -/
def Stopping (row : JobRecord) : Prop :=
  (row.status = .leased ∧ row.cancelRequested = true) ∨ ∃ outcome, row.status = .ended outcome

/-- What the row says of the cancels among its writes. -/
structure Cancelled (row : JobRecord) (changes : List (Nat × Update)) : Prop where
  queued : row.status = .queued → row.cancelRequested = false
  leased : ∀ thread, (thread, .cancelLeased) ∈ changes → Stopping row
  direct : ∀ thread, (thread, .cancelQueued) ∈ changes → row.status = .ended .cancelled

theorem stopping_assign {row : JobRecord} (h : Stopping row) {change : Update}
    (hHolds : change.holds row = true) (now : Int) :
    Stopping (change.assign settings now row) ∧ (∀ worker, change ≠ .claim worker) ∧
      ∀ cutoff previousAttempts cancelling, change = .reclaim cutoff previousAttempts cancelling →
        (change.assign settings now row).status = .ended .cancelled ∧
          (change.assign settings now row).result = cancelledJobResult row.id := by
  rcases h with ⟨hLeased, hFlag⟩ | ⟨outcome, hEnded⟩
  · cases change with
    | claim worker => simp [Update.holds, hLeased] at hHolds
    | cancelQueued => simp [Update.holds, hLeased] at hHolds
    | reclaim cutoff previousAttempts cancelling =>
      simp only [Update.holds, Bool.and_eq_true, decide_eq_true_eq] at hHolds
      obtain ⟨-, hCancelling⟩ := hHolds
      have hTrue : cancelling = true := hCancelling.symm.trans hFlag
      subst hTrue
      refine ⟨.inr ⟨.cancelled, rfl⟩, (fun _ => by rintro ⟨⟩), fun _ _ _ _ => ⟨rfl, rfl⟩⟩
    | finish outcome payload worker =>
      exact ⟨.inr ⟨outcome, rfl⟩, (fun _ => by rintro ⟨⟩), fun _ _ _ => by rintro ⟨⟩⟩
    | cancelLeased => exact ⟨.inl ⟨hLeased, rfl⟩, (fun _ => by rintro ⟨⟩), fun _ _ _ => by rintro ⟨⟩⟩
    | _ => exact ⟨.inl ⟨hLeased, hFlag⟩, (fun _ => by rintro ⟨⟩), fun _ _ _ => by rintro ⟨⟩⟩
  · obtain ⟨hStatus, -⟩ := @ended_assign settings _ _ hEnded _ hHolds now
    refine ⟨.inr ⟨outcome, hStatus⟩, ?_, ?_⟩
    · rintro worker rfl
      simp [Update.holds, hEnded] at hHolds
    · rintro cutoff previousAttempts cancelling rfl
      simp [Update.holds, hEnded] at hHolds

theorem Cancelled.fresh (id orgId : String) (spec : PyValue.Val) (capabilities : List String) (now : Int) :
    Cancelled (.fresh id orgId spec capabilities now) [] where
  queued _ := rfl
  leased _ h := nomatch h
  direct _ h := nomatch h

theorem queued_assign {row : JobRecord} (h : row.status = .queued → row.cancelRequested = false)
    {change : Update} (hHolds : change.holds row = true) (now : Int) :
    (change.assign settings now row).status = .queued →
      (change.assign settings now row).cancelRequested = false := by
  cases change with
  | claim worker => rintro ⟨⟩
  | reclaim cutoff previousAttempts cancelling =>
    simp only [Update.holds, Bool.and_eq_true, decide_eq_true_eq] at hHolds
    obtain ⟨-, hCancelling⟩ := hHolds
    intro hQueued
    change row.cancelRequested = false
    change (reclaimedOutcome _ _ _ _).1 = _ at hQueued
    rw [hCancelling]
    cases cancelling with
    | false => rfl
    | true => cases hQueued
  | finish outcome payload worker => rintro ⟨⟩
  | cancelQueued => rintro ⟨⟩
  | cancelLeased =>
    intro hQueued
    have hLeased : row.status = .leased := of_decide_eq_true hHolds
    cases hLeased.symm.trans hQueued
  | _ => exact h

theorem Cancelled.assign {row : JobRecord} {changes : List (Nat × Update)} (h : Cancelled row changes)
    (thread : Nat) (now : Int) {change : Update} (hHolds : change.holds row = true) :
    Cancelled (change.assign settings now row) (changes ++ [(thread, change)]) := by
  constructor
  · exact queued_assign h.queued hHolds now
  · intro thread' hMem
    rcases List.mem_append.mp hMem with hMem | hMem
    · exact (stopping_assign (h.leased thread' hMem) hHolds now).1
    · obtain ⟨rfl, rfl⟩ := Prod.mk.inj (List.mem_singleton.mp hMem)
      exact .inl ⟨of_decide_eq_true hHolds, rfl⟩
  · intro thread' hMem
    rcases List.mem_append.mp hMem with hMem | hMem
    · exact (ended_assign (h.direct thread' hMem) hHolds now).1
    · obtain ⟨rfl, rfl⟩ := Prod.mk.inj (List.mem_singleton.mp hMem)
      rfl

theorem Cancelled.keeps : Keeps settings Cancelled where
  fresh id orgId spec capabilities now := .fresh id orgId spec capabilities now
  assign _ _ thread now _ hHolds h := h.assign thread now hHolds

theorem Evolves.id {row fin : JobRecord} {changes : List (Nat × Update)}
    (h : Evolves settings row changes fin) : fin.id = row.id := by
  induction h with
  | refl => rfl
  | tail _ thread now change hHolds ih => rw [Update.assign_id, ih]

/-- From a stopping job on: it stays so, it is never claimed, and a reclaim ends it cancelled. -/
theorem Evolves.stopping {row fin : JobRecord} {changes : List (Nat × Update)}
    (h : Evolves settings row changes fin) (hRow : Stopping row) :
    Stopping fin ∧ (∀ thread worker, (thread, .claim worker) ∉ changes) ∧
      ∀ thread cutoff previousAttempts cancelling,
        (thread, .reclaim cutoff previousAttempts cancelling) ∈ changes →
          fin.status = .ended .cancelled ∧ fin.result = cancelledJobResult row.id := by
  induction h with
  | refl => exact ⟨hRow, (fun _ _ h => nomatch h), fun _ _ _ _ h => nomatch h⟩
  | tail hEarlier thread now change hHolds ih =>
    obtain ⟨hMid, hClaims, hReclaims⟩ := ih
    obtain ⟨hStopping, hNoClaim, hReclaim⟩ := @stopping_assign settings _ hMid _ hHolds now
    refine ⟨hStopping, ?_, ?_⟩
    · intro thread' worker hMem
      rcases List.mem_append.mp hMem with hMem | hMem
      · exact hClaims thread' worker hMem
      · obtain ⟨-, hClaim⟩ := Prod.mk.inj (List.mem_singleton.mp hMem)
        exact hNoClaim worker hClaim.symm
    · intro thread' cutoff previousAttempts cancelling hMem
      rcases List.mem_append.mp hMem with hMem | hMem
      · obtain ⟨hEnded, hResult⟩ := hReclaims thread' cutoff previousAttempts cancelling hMem
        obtain ⟨hStatus, hSame⟩ := @ended_assign settings _ _ hEnded _ hHolds now
        exact ⟨hStatus, hSame.trans hResult⟩
      · obtain ⟨-, rfl⟩ := Prod.mk.inj (List.mem_singleton.mp hMem)
        rw [← hEarlier.id]
        exact hReclaim cutoff previousAttempts cancelling rfl

/-! ## The call -/

theorem drives_cancelTries {id : String} {tries : Nat} {start status : Status}
    {events : List (Event Statement Reply Moment)}
    (h : Machine.Drives (store settings) (cancelTries id tries start) events
      (.ret (.cancel (some (status, true))))) :
    ∃ thread moment, (matched thread moment id .cancelQueued ∈ events ∧ status = .ended .cancelled) ∨
      (matched thread moment id .cancelLeased ∈ events ∧ status = .leased) := by
  induction tries generalizing start events with
  | zero =>
    obtain ⟨hRet, -⟩ := drives_ret h
    cases hRet
  | succ tries ih =>
    obtain ⟨thread, moment, (queued : Nat), later, rfl, hRest⟩ := drives_stmt h
    split at hRest
    · rename_i hQueued
      subst hQueued
      obtain ⟨hRet, -⟩ := drives_ret hRest
      cases hRet
      exact ⟨thread, moment, .inl ⟨List.mem_cons_self, rfl⟩⟩
    · obtain ⟨thread', moment', (leased : Nat), later', rfl, hSecond⟩ := drives_stmt hRest
      split at hSecond
      · rename_i hLeased
        subst hLeased
        obtain ⟨hRet, -⟩ := drives_ret hSecond
        cases hRet
        exact ⟨thread', moment', .inr ⟨List.mem_cons_of_mem _ List.mem_cons_self, rfl⟩⟩
      · obtain ⟨_, _, row, later'', rfl, hThird⟩ := drives_stmt hSecond
        have hLater : ∃ start, Machine.Drives (store settings) (cancelTries id tries start) later''
            (.ret (.cancel (some (status, true)))) := by
          cases row with
          | none =>
            obtain ⟨hRet, -⟩ := drives_ret hThird
            cases hRet
          | some row =>
            simp only at hThird
            split at hThird
            · obtain ⟨hRet, -⟩ := drives_ret hThird
              cases hRet
            · exact ⟨_, hThird⟩
        obtain ⟨start', hDrives⟩ := hLater
        obtain ⟨thread'', moment'', hDone⟩ := ih hDrives
        refine ⟨thread'', moment'', hDone.imp ?_ ?_⟩
        · rintro ⟨hMem, hStatus⟩
          exact ⟨by simp [hMem], hStatus⟩
        · rintro ⟨hMem, hStatus⟩
          exact ⟨by simp [hMem], hStatus⟩

theorem Reachable.cancelled {st : System} (h : Reachable settings st) {id : String} {row : JobRecord}
    (hRow : st.shared.job id = some row) : Cancelled row (writes id st.history) :=
  h.keeps Cancelled.keeps hRow

theorem cancel_never_lost (settings : Settings) {st fin : System} (h : Reachable settings st)
    (hLater : (store settings).Reaches st fin) (id : String) :
    (∀ row, st.shared.job id = some row → row.status = .queued → row.cancelRequested = false) ∧
    ∀ n status, Returned st n (.cancelJob id) (.cancel (some (status, true))) →
      ∃ row row' later, st.shared.job id = some row ∧ fin.shared.job id = some row' ∧
        writes id fin.history = writes id st.history ++ later ∧
        (status = .leased ∨ status = .ended .cancelled ∧ row.status = .ended .cancelled) ∧
        (∀ thread worker, (thread, .claim worker) ∉ later) ∧
        ((row'.status = .leased ∧ row'.cancelRequested = true) ∨ ∃ outcome, row'.status = .ended outcome) ∧
        (∀ outcome, row.status = .ended outcome →
          row'.status = .ended outcome ∧ row'.result = row.result) ∧
        ∀ thread cutoff previousAttempts cancelling,
          (thread, .reclaim cutoff previousAttempts cancelling) ∈ later →
            row'.status = .ended .cancelled ∧ row'.result = cancelledJobResult id := by
  refine ⟨fun row hRow => (h.cancelled hRow).queued, ?_⟩
  intro n status hReturned
  obtain ⟨thread, moment, hDone⟩ := drives_cancelTries (h.drives hReturned)
  have hWrote : (n, .cancelQueued) ∈ writes id st.history ∧ status = .ended .cancelled ∨
      (n, .cancelLeased) ∈ writes id st.history ∧ status = .leased :=
    hDone.imp (And.imp_left mem_writes_of_matched) (And.imp_left mem_writes_of_matched)
  obtain ⟨row, hRow⟩ : ∃ row, st.shared.job id = some row := by
    rcases h.stands id with ⟨-, hNone⟩ | ⟨_, _, _, _, row, hRow, -⟩
    · rw [hNone] at hWrote
      simp at hWrote
    · exact ⟨row, hRow⟩
  have hCancelled := h.cancelled hRow
  have hStopping : Stopping row := by
    rcases hWrote with ⟨hMem, -⟩ | ⟨hMem, -⟩
    · exact .inr ⟨.cancelled, hCancelled.direct n hMem⟩
    · exact hCancelled.leased n hMem
  obtain ⟨later, row', hRow', hWrites, hEvolves⟩ := h.later hLater hRow
  obtain ⟨hStops, hClaims, hReclaims⟩ := hEvolves.stopping hStopping
  have hId : row.id = id := Table.find_key hRow
  rw [hId] at hReclaims
  refine ⟨row, row', later, hRow, hRow', hWrites, ?_, hClaims, hStops, fun _ => hEvolves.ended, hReclaims⟩
  rcases hWrote with ⟨hMem, hStatus⟩ | ⟨-, hStatus⟩
  · exact .inr ⟨hStatus, hCancelled.direct n hMem⟩
  · exact .inl hStatus

/-! ## A cancel of a leased job whose lease expires -/

def cancelledState : System := after plainSettings leasedState ([.call (.cancelJob "1")] ++ steps 2 20 2)

def expiredState : System :=
  after plainSettings cancelledState ([.call .reclaimExpiredLeases] ++ steps 3 500 2)

theorem cancel_never_lost_expired :
    ∃ row, expiredState.shared.job "1" = some row ∧
      ((row.status = .leased ∧ row.cancelRequested = true) ∨ ∃ outcome, row.status = .ended outcome) := by
  have hCancelled : Reachable plainSettings cancelledState := leasedState_reachable.trans (reaches_after rfl)
  have hExpired : (store plainSettings).Reaches cancelledState expiredState := reaches_after rfl
  have hAll := cancel_never_lost plainSettings hCancelled hExpired "1"
  obtain ⟨_, row', _, _, hRow', _, _, _, hStops, _⟩ := hAll.2 2 .leased rfl
  exact ⟨row', hRow', hStops⟩

example : (expiredState.shared.job "1").map JobRecord.status = some (.ended .cancelled) := by decide +kernel

end Bajutsu.Jobs
