import Bajutsu.Jobs.CloudRuns
import Bajutsu.Jobs.Lease

/-!
# No cloud run is lost

While a worker owns the job's row, the only ARN that may be on it is one of its own submit, so a save never replaces
another run. A run that is scheduled stays with its submit until it is on the row or is asked to stop.
-/

namespace Bajutsu.Jobs.CloudRuns

variable {settings : Settings} {st fin : System} {row : JobRecord} {n k : Nat} {runArn : String}

/-! ## The row -/

theorem applied_batchRunArn {now : Int} {change : Update} (h : foreign change = true) :
    (applied settings now change row).batchRunArn = row.batchRunArn := by
  rw [applied]
  split
  · cases change <;> first | rfl | cases h
  · rfl

theorem ownedBy_of_applied {now : Int} {change : Update} {worker : String} (h : foreign change = true)
    (hOwned : (applied settings now change row).ownedBy worker = true) : row.ownedBy worker = true := by
  rw [applied] at hOwned
  split at hOwned
  · rename_i hHolds
    cases change with
    | claim other => cases h
    | saveBatch other arn => cases h
    | reclaim cutoff previousAttempts cancelling => simp [Update.assign, JobRecord.ownedBy] at hOwned
    | finish outcome payload other => simp [Update.assign, JobRecord.ownedBy] at hOwned
    | cancelQueued => simp [Update.assign, JobRecord.ownedBy] at hOwned
    | _ => exact hOwned
  · exact hOwned

/-! ## The submits -/

theorem phase_moved (m : Nat) (phase : Phase) :
    (st.moved n phase).phase m = if n = m then (st.phase m).map fun _ => phase else st.phase m := by
  simp only [System.phase, System.moved, List.getElem?_modify]
  split
  · cases st.submits[m]? <;> rfl
  · cases st.submits[m]? <;> rfl

theorem worker_moved (m : Nat) (phase : Phase) :
    ((st.moved n phase).submits[m]?).map Submit.worker = (st.submits[m]?).map Submit.worker := by
  simp only [System.moved, List.getElem?_modify]
  split <;> cases st.submits[m]? <;> rfl

def System.worker (st : System) (n : Nat) : Option String := (st.submits[n]?).map Submit.worker

/-- What may be on a row that a submit's worker owns: nothing, or the run of the submit. -/
def Fresh (st : System) (n : Nat) : Prop :=
  st.row.batchRunArn = none ∨ ∃ runArn, (n, runArn) ∈ st.scheduled ∧ st.row.batchRunArn = some runArn

structure Accounts (st : System) : Prop where
  unscheduled : ∀ n, st.phase n = some .claimed ∨ (∃ stored, st.phase n = some (.leased stored)) →
    ∀ runArn, (n, runArn) ∉ st.scheduled
  bound : ∀ n runArn, (n, runArn) ∈ st.scheduled → n < st.submits.length
  single : ∀ n a b, (n, a) ∈ st.scheduled → (n, b) ∈ st.scheduled → a = b
  saving : ∀ n runArn, st.phase n = some (.scheduled runArn) → (n, runArn) ∈ st.scheduled
  posted : ∀ post ∈ st.posts, (post.submit, post.runArn) ∈ st.scheduled
  answered : ∀ post ∈ st.posts, post.stage = .answered 200 → st.row.batchRunArn = some post.runArn
  apart : ∀ n m, st.live n = true → st.live m = true → st.worker n = st.worker m → n = m
  fresh : ∀ n worker, st.live n = true → st.worker n = some worker → st.row.ownedBy worker = true →
    (st.phase n = some (.leased none) ∨ ∃ runArn, (n, runArn) ∈ st.scheduled) → Fresh st n
  kept : ∀ n runArn, (n, runArn) ∈ st.scheduled → st.row.batchRunArn = some runArn ∨ runArn ∈ st.stopped ∨
    st.phase n = some (.scheduled runArn) ∨ st.phase n = some (.stopping runArn)

theorem phase_moved_self {before after : Phase} (h : st.phase n = some before) :
    (st.moved n after).phase n = some after := by
  rw [phase_moved, if_pos rfl, h]
  rfl

theorem phase_moved_ne {m : Nat} {after : Phase} (h : n ≠ m) : (st.moved n after).phase m = st.phase m := by
  rw [phase_moved, if_neg h]

theorem live_of_moved {m : Nat} {before after : Phase} (hPhase : st.phase n = some before) (hBefore : before ≠ .over)
    (h : (st.moved n after).live m = true) : st.live m = true := by
  rcases eq_or_ne n m with rfl | hNe
  · simp [System.live, hPhase, hBefore]
  · rw [System.live, phase_moved_ne hNe] at h
    exact h

theorem Accounts.moved (h : Accounts st) {before after : Phase} {stopped : List String}
    (hPhase : st.phase n = some before) (hBefore : before ≠ .over)
    (hUnscheduled : (after = .claimed ∨ ∃ stored, after = .leased stored) → before = .claimed ∨ ∃ stored, before = .leased stored)
    (hSaving : ∀ runArn, after = .scheduled runArn → (n, runArn) ∈ st.scheduled)
    (hFresh : after = .leased none → st.row.batchRunArn = none) (hStopped : st.stopped ⊆ stopped)
    (hKept : ∀ runArn, before = .scheduled runArn ∨ before = .stopping runArn →
      st.row.batchRunArn = some runArn ∨ runArn ∈ stopped ∨ after = .scheduled runArn ∨ after = .stopping runArn) :
    Accounts { st.moved n after with stopped := stopped } := by
  have hSelf : (st.moved n after).phase n = some after := phase_moved_self hPhase
  have hWorker (m : Nat) : (st.moved n after).worker m = st.worker m := worker_moved m after
  constructor
  · intro m hEarly
    rcases eq_or_ne n m with rfl | hNe
    · refine h.unscheduled n ?_
      rw [hPhase]
      have hAfter : after = .claimed ∨ ∃ stored, after = .leased stored := by
        rcases hEarly with hEarly | ⟨stored, hEarly⟩
        · exact .inl (Option.some.inj (hSelf.symm.trans hEarly))
        · exact .inr ⟨stored, Option.some.inj (hSelf.symm.trans hEarly)⟩
      rcases hUnscheduled hAfter with rfl | ⟨stored, rfl⟩
      · exact .inl rfl
      · exact .inr ⟨stored, rfl⟩
    · have hOld : (st.moved n after).phase m = st.phase m := phase_moved_ne hNe
      exact h.unscheduled m (hOld ▸ hEarly)
  · intro m runArn hMem
    have hLess := h.bound m runArn hMem
    simpa [System.moved] using hLess
  · exact h.single
  · intro m runArn hScheduled
    rcases eq_or_ne n m with rfl | hNe
    · exact hSaving runArn (Option.some.inj (hSelf.symm.trans hScheduled))
    · exact h.saving m runArn ((phase_moved_ne hNe).symm.trans hScheduled)
  · exact h.posted
  · exact h.answered
  · intro m m' hLive hLive' hSame
    refine h.apart m m' (live_of_moved hPhase hBefore hLive) (live_of_moved hPhase hBefore hLive') ?_
    exact ((hWorker m).symm.trans hSame).trans (hWorker m')
  · intro m worker hLive hOwner hOwned hEarly
    have hOld := live_of_moved hPhase hBefore hLive
    rcases eq_or_ne n m with rfl | hNe
    · rcases hEarly with hEarly | hScheduled
      · exact .inl (hFresh (Option.some.inj (hSelf.symm.trans hEarly)))
      · exact h.fresh n worker hOld ((hWorker n).symm.trans hOwner) hOwned (.inr hScheduled)
    · refine h.fresh m worker hOld ((hWorker m).symm.trans hOwner) hOwned ?_
      exact hEarly.imp_left (phase_moved_ne hNe).symm.trans
  · intro m runArn hMem
    rcases eq_or_ne n m with rfl | hNe
    · rcases h.kept n runArn hMem with hStored | hStop | hPending
      · exact .inl hStored
      · exact .inr (.inl (hStopped hStop))
      · have hPending' : before = .scheduled runArn ∨ before = .stopping runArn := by
          rw [hPhase] at hPending
          simpa using hPending
        rcases hKept runArn hPending' with hStored | hStop | rfl | rfl
        · exact .inl hStored
        · exact .inr (.inl hStop)
        · exact .inr (.inr (.inl hSelf))
        · exact .inr (.inr (.inr hSelf))
    · have hOld : (st.moved n after).phase m = st.phase m := phase_moved_ne hNe
      refine (h.kept m runArn hMem).imp_right (Or.imp (@hStopped runArn) fun hPending => ?_)
      exact hPending.imp hOld.trans hOld.trans

/-! ## The posts -/

theorem mem_staged {stage : Stage} {other : Post} (h : other ∈ (st.staged k stage).posts) :
    other ∈ st.posts ∨ ∃ post, st.posts[k]? = some post ∧ other = { post with stage := stage } := by
  obtain ⟨i, hGet⟩ := List.mem_iff_getElem?.mp h
  rw [System.staged, List.getElem?_modify] at hGet
  split at hGet
  · rename_i hSame
    subst hSame
    obtain ⟨post, hPost, rfl⟩ := Option.map_eq_some_iff.mp hGet
    exact .inr ⟨post, hPost, rfl⟩
  · refine .inl (List.mem_iff_getElem?.mpr ⟨i, ?_⟩)
    cases hOld : st.posts[i]? with
    | none => simp [hOld] at hGet
    | some post => simpa [hOld] using hGet

theorem live_of_staged {stage : Stage} {post : Post} {m : Nat} (hPost : st.posts[k]? = some post)
    (hOpen : System.Stage.open stage = true → System.Stage.open post.stage = true)
    (h : (st.staged k stage).live m = true) : st.live m = true := by
  rw [System.live, Bool.or_eq_true] at h ⊢
  refine h.imp_right fun hAny => ?_
  obtain ⟨other, hMem, hOther⟩ := List.any_eq_true.mp hAny
  rcases mem_staged hMem with hOld | ⟨post', hPost', rfl⟩
  · exact List.any_eq_true.mpr ⟨other, hOld, hOther⟩
  · obtain rfl := Option.some.inj (hPost.symm.trans hPost')
    refine List.any_eq_true.mpr ⟨post, List.mem_of_getElem? hPost, ?_⟩
    rw [Bool.and_eq_true] at hOther ⊢
    exact ⟨hOther.1, hOpen hOther.2⟩

theorem Accounts.staged (h : Accounts st) {stage : Stage} {post : Post} (hPost : st.posts[k]? = some post)
    (hOpen : System.Stage.open stage = true → System.Stage.open post.stage = true)
    (hStored : stage = .answered 200 → st.row.batchRunArn = some post.runArn) : Accounts (st.staged k stage) := by
  have hLive {m : Nat} : (st.staged k stage).live m = true → st.live m = true := live_of_staged hPost hOpen
  constructor
  · exact h.unscheduled
  · exact h.bound
  · exact h.single
  · exact h.saving
  · intro other hMem
    rcases mem_staged hMem with hOld | ⟨post', hPost', rfl⟩
    · exact h.posted other hOld
    · exact h.posted post' (List.mem_of_getElem? hPost')
  · intro other hMem hAnswered
    rcases mem_staged hMem with hOld | ⟨post', hPost', rfl⟩
    · exact h.answered other hOld hAnswered
    · obtain rfl := Option.some.inj (hPost.symm.trans hPost')
      exact hStored hAnswered
  · exact fun m m' hM hM' => h.apart m m' (hLive hM) (hLive hM')
  · exact fun m worker hM => h.fresh m worker (hLive hM)
  · exact h.kept

theorem Accounts.rowKept (h : Accounts st) {row : JobRecord} (hArn : row.batchRunArn = st.row.batchRunArn)
    (hOwned : ∀ worker, row.ownedBy worker = true → st.row.ownedBy worker = true) : Accounts { st with row := row } := by
  constructor
  · exact h.unscheduled
  · exact h.bound
  · exact h.single
  · exact h.saving
  · exact h.posted
  · exact fun post hMem hAnswered => hArn.trans (h.answered post hMem hAnswered)
  · exact h.apart
  · intro n worker hLive hOwner hNow hEarly
    refine (h.fresh n worker hLive hOwner (hOwned worker hNow) hEarly).imp hArn.trans ?_
    exact fun ⟨runArn, hMem, hStored⟩ => ⟨runArn, hMem, hArn.trans hStored⟩
  · intro n runArn hMem
    exact (h.kept n runArn hMem).imp_left hArn.trans

/-- The row that a submit's worker owns gets the run of the submit, which is the only one that may be there. -/
theorem Accounts.saved (h : Accounts st) {post : Post} {worker : String} (hMem : post ∈ st.posts)
    (hOpen : System.Stage.open post.stage = true) (hWorker : st.worker post.submit = some worker)
    (hOwned : st.row.ownedBy worker = true) :
    (∀ stored, st.row.batchRunArn = some stored → stored = post.runArn) ∧
      Accounts { st with row := { st.row with batchRunArn := some post.runArn } } := by
  have hLive : st.live post.submit = true := by
    rw [System.live, Bool.or_eq_true]
    exact .inr (List.any_eq_true.mpr ⟨post, hMem, by simp [hOpen]⟩)
  have hScheduled := h.posted post hMem
  have hFresh := h.fresh post.submit worker hLive hWorker hOwned (.inr ⟨_, hScheduled⟩)
  have hOnly (stored : String) (hStored : st.row.batchRunArn = some stored) : stored = post.runArn := by
    rcases hFresh with hNone | ⟨runArn, hRun, hSome⟩
    · rw [hNone] at hStored
      cases hStored
    · obtain rfl := Option.some.inj (hStored.symm.trans hSome)
      exact h.single _ _ _ hRun hScheduled
  refine ⟨hOnly, ?_⟩
  constructor
  · exact h.unscheduled
  · exact h.bound
  · exact h.single
  · exact h.saving
  · exact h.posted
  · intro other hOther hAnswered
    rw [hOnly _ (h.answered other hOther hAnswered)]
  · exact h.apart
  · intro n owner hN hOwner hNow _
    have hSame : owner = worker := by
      have hBoth : st.row.leasedBy = some owner ∧ st.row.leasedBy = some worker := by
        simp only [JobRecord.ownedBy, Bool.and_eq_true, decide_eq_true_eq] at hNow hOwned
        exact ⟨hNow.2, hOwned.2⟩
      exact Option.some.inj (hBoth.1.symm.trans hBoth.2)
    subst hSame
    obtain rfl := h.apart n post.submit hN hLive (hOwner.trans hWorker.symm)
    exact .inr ⟨_, hScheduled, rfl⟩
  · intro n runArn hRun
    refine (h.kept n runArn hRun).imp_left fun hStored => ?_
    rw [hOnly runArn hStored]

/-! ## The steps -/

theorem Accounts.claim (h : Accounts st) {now : Int} {worker : String} (hQueued : st.row.status = .queued)
    (hQuiet : st.quiet worker = true) :
    Accounts { st with
      row := applied settings now (.claim worker) st.row
      submits := st.submits ++ [⟨worker, .claimed⟩] } := by
  have hRow : applied settings now (.claim worker) st.row =
      { st.row with status := .leased, leasedAt := some now, leasedBy := some worker } :=
    if_pos (decide_eq_true hQueued)
  rw [hRow]
  have hDead (m : Nat) (hLive : st.live m = true) : st.worker m ≠ some worker := by
    intro hWorker
    obtain ⟨s, hGet, hSame⟩ := Option.map_eq_some_iff.mp hWorker
    have hBusy := List.all_eq_true.mp hQuiet m (List.mem_range.mpr (List.getElem?_eq_some_iff.mp hGet).1)
    simp [hGet, hSame, hLive] at hBusy
  generalize hNew : ({ st with
      row := { st.row with status := .leased, leasedAt := some now, leasedBy := some worker }
      submits := st.submits ++ [⟨worker, .claimed⟩] } : System) = new
  have hGet (m : Nat) : new.submits[m]? = if m = st.submits.length then some ⟨worker, .claimed⟩ else st.submits[m]? := by
    rw [← hNew]
    rcases lt_trichotomy m st.submits.length with hLess | rfl | hMore
    · rw [if_neg hLess.ne]
      exact List.getElem?_append_left hLess
    · simp
    · rw [if_neg hMore.ne', List.getElem?_eq_none hMore.le]
      exact List.getElem?_eq_none (by simpa using hMore)
  have hPhase {m : Nat} (hm : m ≠ st.submits.length) : new.phase m = st.phase m := by
    rw [System.phase, hGet, if_neg hm, System.phase]
  have hPhaseNew : new.phase st.submits.length = some .claimed := by
    rw [System.phase, hGet, if_pos rfl]
    rfl
  have hWorker {m : Nat} (hm : m ≠ st.submits.length) : new.worker m = st.worker m := by
    rw [System.worker, hGet, if_neg hm, System.worker]
  have hWorkerNew : new.worker st.submits.length = some worker := by
    rw [System.worker, hGet, if_pos rfl]
    rfl
  have hLive {m : Nat} (hm : m ≠ st.submits.length) (hLive : new.live m = true) : st.live m = true := by
    rw [System.live, hPhase hm] at hLive
    subst hNew
    exact hLive
  have hScheduled : new.scheduled = st.scheduled := by rw [← hNew]
  have hArn : new.row.batchRunArn = st.row.batchRunArn := by rw [← hNew]
  constructor
  · intro m hEarly runArn hMem
    rw [hScheduled] at hMem
    have hm := (h.bound m runArn hMem).ne
    rw [hPhase hm] at hEarly
    exact h.unscheduled m hEarly runArn hMem
  · intro m runArn hMem
    rw [hScheduled] at hMem
    have hLess := h.bound m runArn hMem
    rw [← hNew, List.length_append, List.length_singleton]
    omega
  · rw [hScheduled]
    exact h.single
  · intro m runArn hSaving
    rw [hScheduled]
    rcases eq_or_ne m st.submits.length with rfl | hm
    · rw [hPhaseNew] at hSaving
      cases hSaving
    · exact h.saving m runArn ((hPhase hm).symm.trans hSaving)
  · rw [hScheduled, ← hNew]
    exact h.posted
  · intro post hMem hAnswered
    rw [hArn]
    rw [← hNew] at hMem
    exact h.answered post hMem hAnswered
  · intro m m' hM hM' hSame
    rcases eq_or_ne m st.submits.length with rfl | hm
    · rcases eq_or_ne m' st.submits.length with rfl | hm'
      · rfl
      · rw [hWorkerNew, hWorker hm'] at hSame
        exact absurd hSame.symm (hDead m' (hLive hm' hM'))
    · rcases eq_or_ne m' st.submits.length with rfl | hm'
      · rw [hWorkerNew, hWorker hm] at hSame
        exact absurd hSame (hDead m (hLive hm hM))
      · rw [hWorker hm, hWorker hm'] at hSame
        exact h.apart m m' (hLive hm hM) (hLive hm' hM') hSame
  · intro m owner hM hOwner hOwned hEarly
    have hSame : owner = worker := by
      rw [← hNew] at hOwned
      simpa [JobRecord.ownedBy, eq_comm] using hOwned
    subst hSame
    rcases eq_or_ne m st.submits.length with rfl | hm
    · rcases hEarly with hEarly | ⟨runArn, hMem⟩
      · rw [hPhaseNew] at hEarly
        cases hEarly
      · rw [hScheduled] at hMem
        exact absurd (h.bound _ runArn hMem) (lt_irrefl _)
    · exact absurd ((hWorker hm).symm.trans hOwner) (hDead m (hLive hm hM))
  · intro m runArn hMem
    rw [hScheduled] at hMem
    have hm := (h.bound m runArn hMem).ne
    rw [hArn, hPhase hm, ← hNew]
    exact h.kept m runArn hMem

theorem Accounts.schedule (h : Accounts st) (hPhase : st.phase n = some (.leased none)) :
    Accounts { st.moved n (.scheduled runArn) with scheduled := st.scheduled ++ [(n, runArn)] } := by
  have hNone := h.unscheduled n (.inr ⟨none, hPhase⟩)
  have hLess : n < st.submits.length := by
    obtain ⟨s, hGet, -⟩ := Option.map_eq_some_iff.mp hPhase
    exact (List.getElem?_eq_some_iff.mp hGet).1
  have hSelf : (st.moved n (.scheduled runArn)).phase n = some (.scheduled runArn) := phase_moved_self hPhase
  have hOther {m : Nat} (hm : n ≠ m) : (st.moved n (.scheduled runArn)).phase m = st.phase m := phase_moved_ne hm
  have hWorker (m : Nat) : (st.moved n (.scheduled runArn)).worker m = st.worker m := worker_moved m _
  have hLive {m : Nat} : (st.moved n (.scheduled runArn)).live m = true → st.live m = true :=
    live_of_moved hPhase nofun
  have hMem {m : Nat} {arn : String} : (m, arn) ∈ st.scheduled ++ [(n, runArn)] ↔
      (m, arn) ∈ st.scheduled ∨ (m = n ∧ arn = runArn) := by simp
  constructor
  · intro m hEarly arn hScheduled
    have hm : n ≠ m := by
      rintro rfl
      rcases hEarly with hEarly | ⟨stored, hEarly⟩ <;> exact nomatch hSelf.symm.trans hEarly
    rcases hMem.mp hScheduled with hOld | ⟨rfl, -⟩
    · exact h.unscheduled m ((hOther hm) ▸ hEarly) arn hOld
    · exact hm rfl
  · intro m arn hScheduled
    have hLength : (st.moved n (.scheduled runArn)).submits.length = st.submits.length := List.length_modify ..
    refine lt_of_lt_of_eq ?_ hLength.symm
    rcases hMem.mp hScheduled with hOld | ⟨rfl, -⟩
    · exact h.bound m arn hOld
    · exact hLess
  · intro m a b ha hb
    rcases hMem.mp ha with hOld | ⟨rfl, rfl⟩
    · rcases hMem.mp hb with hOld' | ⟨rfl, -⟩
      · exact h.single m a b hOld hOld'
      · exact absurd hOld (hNone a)
    · rcases hMem.mp hb with hOld | ⟨-, rfl⟩
      · exact absurd hOld (hNone b)
      · rfl
  · intro m arn hSaving
    rcases eq_or_ne n m with rfl | hm
    · have hSame : some (Phase.scheduled runArn) = some (.scheduled arn) := hSelf.symm.trans hSaving
      cases hSame
      exact hMem.mpr (.inr ⟨rfl, rfl⟩)
    · exact hMem.mpr (.inl (h.saving m arn ((hOther hm).symm.trans hSaving)))
  · exact fun post hPost => hMem.mpr (.inl (h.posted post hPost))
  · exact h.answered
  · intro m m' hM hM' hSame
    refine h.apart m m' (hLive hM) (hLive hM') ?_
    exact ((hWorker m).symm.trans hSame).trans (hWorker m')
  · intro m worker hM hOwner hOwned hEarly
    have hFresh : Fresh st m := by
      refine h.fresh m worker (hLive hM) ((hWorker m).symm.trans hOwner) hOwned ?_
      rcases eq_or_ne n m with rfl | hm
      · exact .inl hPhase
      · refine hEarly.imp (hOther hm).symm.trans fun ⟨arn, hScheduled⟩ => ?_
        exact ⟨arn, (hMem.mp hScheduled).resolve_right fun hNew => hm hNew.1.symm⟩
    exact hFresh.imp_right fun ⟨arn, hScheduled, hStored⟩ => ⟨arn, hMem.mpr (.inl hScheduled), hStored⟩
  · intro m arn hScheduled
    rcases hMem.mp hScheduled with hOld | ⟨rfl, rfl⟩
    · have hm : n ≠ m := fun hSame => hNone arn (hSame ▸ hOld)
      have hPhases : (st.moved n (.scheduled runArn)).phase m = st.phase m := hOther hm
      refine (h.kept m arn hOld).imp_right (Or.imp_right fun hPending => ?_)
      exact hPending.imp hPhases.trans hPhases.trans
    · exact .inr (.inr (.inl hSelf))

theorem Accounts.post (h : Accounts st) (hPhase : st.phase n = some (.scheduled runArn)) :
    Accounts { st with posts := st.posts ++ [⟨n, runArn, .posted⟩] } := by
  have hLive {m : Nat} (hLive : System.live { st with posts := st.posts ++ [⟨n, runArn, .posted⟩] } m = true) :
      st.live m = true := by
    rcases eq_or_ne n m with rfl | hm
    · simp [System.live, hPhase]
    · simpa [System.live, System.phase, hm] using hLive
  have hMem {post : Post} (h : post ∈ st.posts ++ [⟨n, runArn, .posted⟩]) :
      post ∈ st.posts ∨ post = ⟨n, runArn, .posted⟩ := by simpa using h
  constructor
  · exact h.unscheduled
  · exact h.bound
  · exact h.single
  · exact h.saving
  · intro post hPost
    rcases hMem hPost with hOld | rfl
    · exact h.posted post hOld
    · exact h.saving n runArn hPhase
  · intro post hPost hAnswered
    rcases hMem hPost with hOld | rfl
    · exact h.answered post hOld hAnswered
    · cases hAnswered
  · exact fun m m' hM hM' => h.apart m m' (hLive hM) (hLive hM')
  · exact fun m worker hM => h.fresh m worker (hLive hM)
  · exact h.kept

/-- What a step keeps: the accounts, the ARN on the row, and who each submit is of. -/
theorem Accounts.step (h : Accounts st) {label : Label} (hStep : st.step settings label = some fin) :
    Accounts fin ∧ (∀ stored, st.row.batchRunArn = some stored → fin.row.batchRunArn = some stored) := by
  have hSame {st' : System} (hRow : st'.row = st.row) (stored : String) (hStored : st.row.batchRunArn = some stored) :
      st'.row.batchRunArn = some stored := by rw [hRow, hStored]
  cases label with
  | update now change =>
    rw [System.step] at hStep
    split at hStep
    · rename_i hForeign
      cases hStep
      have hArn : (applied settings now change st.row).batchRunArn = st.row.batchRunArn := applied_batchRunArn hForeign
      exact ⟨h.rowKept hArn fun _ => ownedBy_of_applied hForeign, fun stored hStored => hArn.trans hStored⟩
    · cases hStep
  | claim now worker =>
    rw [System.step] at hStep
    split at hStep
    · rename_i hGuard
      cases hStep
      have hQueued : st.row.status = .queued := of_decide_eq_true hGuard.2.1
      refine ⟨h.claim hQueued hGuard.2.2, fun stored hStored => ?_⟩
      rw [applied, if_pos hGuard.2.1]
      exact hStored
    · cases hStep
  | readStored n =>
    rw [System.step] at hStep
    split at hStep
    · rename_i hPhase
      cases hStep
      refine ⟨?_, hSame rfl⟩
      refine h.moved hPhase nofun (fun _ => .inl rfl) nofun (fun hNone => ?_) (List.Subset.refl _) (by simp)
      exact Phase.leased.inj hNone
    · cases hStep
  | resume n =>
    rw [System.step] at hStep
    split at hStep
    · rename_i runArn hPhase
      cases hStep
      exact ⟨h.moved hPhase nofun (fun _ => .inr ⟨_, rfl⟩) nofun nofun (List.Subset.refl _) (by simp), hSame rfl⟩
    · cases hStep
  | schedule n runArn =>
    rw [System.step] at hStep
    split at hStep
    · rename_i hPhase
      split at hStep
      · cases hStep
      · cases hStep
        exact ⟨h.schedule hPhase, hSame rfl⟩
    · cases hStep
  | post n =>
    rw [System.step] at hStep
    split at hStep
    · rename_i runArn hPhase
      cases hStep
      exact ⟨h.post hPhase, hSame rfl⟩
    · cases hStep
  | load k =>
    rw [System.step] at hStep
    split at hStep
    · rename_i submit runArn hPost
      cases hStep
      refine ⟨h.staged hPost (fun _ => rfl) fun hRead => ?_, hSame rfl⟩
      rw [System.read] at hRead
      split at hRead
      · cases hRead
      · split at hRead
        · assumption
        · cases hRead
    · cases hStep
  | save now k =>
    rw [System.step] at hStep
    split at hStep
    · rename_i submit runArn hPost
      split at hStep
      · cases hStep
      · rename_i s hSubmit
        cases hStep
        have hMem := List.mem_of_getElem? hPost
        by_cases hOwned : (Update.saveBatch s.worker runArn).holds st.row = true
        · have hWorker : st.worker submit = some s.worker := congrArg (Option.map Submit.worker) hSubmit
          obtain ⟨hOnly, hAccounts⟩ := h.saved hMem rfl hWorker hOwned
          have hRow : applied settings now (.saveBatch s.worker runArn) st.row = { st.row with batchRunArn := some runArn } :=
            if_pos hOwned
          rw [hRow]
          refine ⟨hAccounts.staged hPost (fun _ => rfl) fun _ => rfl, fun stored hStored => ?_⟩
          exact congrArg some (hOnly stored hStored).symm
        · have hRow : applied settings now (.saveBatch s.worker runArn) st.row = st.row := if_neg hOwned
          rw [hRow]
          refine ⟨h.staged hPost (fun _ => rfl) fun hAnswer => ?_, hSame rfl⟩
          rw [if_neg hOwned] at hAnswer
          cases hAnswer
    · cases hStep
  | drop k code =>
    rw [System.step] at hStep
    split at hStep
    · cases hStep
    · rename_i post hPost
      split at hStep
      · rename_i hGuard
        cases hStep
        refine ⟨h.staged hPost (fun _ => hGuard.1) fun hAnswer => ?_, hSame rfl⟩
        exact absurd (Stage.answered.inj hAnswer) hGuard.2
      · cases hStep
  | receive k =>
    rw [System.step] at hStep
    split at hStep
    · rename_i n runArn code hPost
      split at hStep
      · rename_i hPhase
        have hStored (hCode : code = 200) : st.row.batchRunArn = some runArn :=
          h.answered _ (List.mem_of_getElem? hPost) (by rw [hCode])
        split at hStep
        · rename_i hCode
          cases hStep
          refine ⟨h.moved hPhase nofun (fun hEarly => ?_) nofun nofun (List.Subset.refl _) ?_, hSame rfl⟩
          · simp at hEarly
          · intro other hOther
            obtain rfl : runArn = other := by simpa using hOther
            exact .inl (hStored hCode)
        · split at hStep
          · cases hStep
            refine ⟨h.moved hPhase nofun (fun hEarly => ?_) nofun nofun (List.Subset.refl _) ?_, hSame rfl⟩
            · simp at hEarly
            · intro other hOther
              obtain rfl : runArn = other := by simpa using hOther
              exact .inr (.inr (.inr rfl))
          · cases hStep
            exact ⟨h, hSame rfl⟩
      · cases hStep
    · cases hStep
  | giveUp n =>
    have hOver {before : Phase} (hPhase : st.phase n = some before) (hBefore : before ≠ .over)
        (hIdle : ∀ runArn, before ≠ .scheduled runArn ∧ before ≠ .stopping runArn) : Accounts (st.moved n .over) :=
      h.moved hPhase hBefore (by simp) nofun nofun (List.Subset.refl _) fun runArn hBusy =>
        absurd hBusy (by simp [hIdle runArn])
    rw [System.step] at hStep
    split at hStep
    · rename_i hPhase
      cases hStep
      exact ⟨hOver hPhase nofun (by simp), hSame rfl⟩
    · rename_i stored hPhase
      cases hStep
      exact ⟨hOver hPhase nofun (by simp), hSame rfl⟩
    · rename_i runArn hPhase
      cases hStep
      exact ⟨hOver hPhase nofun (by simp), hSame rfl⟩
    · rename_i runArn hPhase
      cases hStep
      refine ⟨h.moved hPhase nofun (by simp) nofun nofun (List.Subset.refl _) ?_, hSame rfl⟩
      intro other hOther
      obtain rfl : runArn = other := by simpa using hOther
      exact .inr (.inr (.inr rfl))
    · cases hStep
  | stop n =>
    have hStopped {before : Phase} {runArn : String} (hPhase : st.phase n = some before) (hBefore : before ≠ .over)
        (hOnly : ∀ other, before = .scheduled other ∨ before = .stopping other → other = runArn) :
        Accounts { st.moved n .over with stopped := st.stopped ++ [runArn] } :=
      h.moved hPhase hBefore (by simp) nofun nofun (List.subset_append_left ..) fun other hBusy =>
        .inr (.inl (by simp [hOnly other hBusy]))
    rw [System.step] at hStep
    split at hStep
    · rename_i runArn hPhase
      cases hStep
      exact ⟨hStopped hPhase nofun (by simp [eq_comm]), hSame rfl⟩
    · rename_i runArn hPhase
      cases hStep
      exact ⟨hStopped hPhase nofun (by simp), hSame rfl⟩
    · cases hStep

theorem Accounts.reaches (h : Accounts st) (hReaches : Reaches settings st fin) :
    Accounts fin ∧ (∀ stored, st.row.batchRunArn = some stored → fin.row.batchRunArn = some stored) := by
  induction hReaches with
  | refl => exact ⟨h, fun _ => id⟩
  | tail _ hStep ih =>
    obtain ⟨hMid, hKept⟩ := ih
    obtain ⟨hFin, hStored⟩ := hMid.step hStep
    exact ⟨hFin, fun stored hFirst => hStored stored (hKept stored hFirst)⟩

/-- How a phase may change in a step. -/
def Follows (stored : Option String) (before after : Option Phase) : Prop :=
  after = before ∨ after = some (.leased stored) ∨ ∃ phase, after = some phase ∧ ∀ other, phase ≠ .leased other

theorem follows_moved {stored : Option String} {phase : Phase}
    (h : phase = .leased stored ∨ ∀ other, phase ≠ .leased other) (m : Nat) :
    Follows stored (st.phase m) ((st.moved n phase).phase m) := by
  rw [phase_moved]
  split
  · cases st.phase m with
    | none => exact .inl rfl
    | some _ => exact .inr (h.imp (congrArg some) fun hOther => ⟨phase, rfl, hOther⟩)
  · exact .inl rfl

/-- A submit schedules only when it was told that no run is stored, and it is told what the row says. -/
theorem step_follows {label : Label} (hStep : st.step settings label = some fin) :
    (∀ n, Follows st.row.batchRunArn (st.phase n) (fin.phase n)) ∧
      ∀ n runArn, (n, runArn) ∈ fin.scheduled → (n, runArn) ∈ st.scheduled ∨ st.phase n = some (.leased none) := by
  have hOld {st' : System} (hScheduled : st'.scheduled = st.scheduled) (n : Nat) (runArn : String)
      (hMem : (n, runArn) ∈ st'.scheduled) : (n, runArn) ∈ st.scheduled ∨ st.phase n = some (.leased none) :=
    .inl (hScheduled ▸ hMem)
  cases label with
  | update now change =>
    rw [System.step] at hStep
    split at hStep
    · cases hStep
      exact ⟨fun _ => .inl rfl, hOld rfl⟩
    · cases hStep
  | claim now worker =>
    rw [System.step] at hStep
    split at hStep
    · cases hStep
      refine ⟨fun m => ?_, hOld rfl⟩
      simp only [System.phase, List.getElem?_append]
      split
      · exact .inl rfl
      · rename_i hMore
        by_cases hFirst : m - st.submits.length = 0
        · exact .inr (.inr ⟨.claimed, by simp [hFirst], nofun⟩)
        · refine .inl ?_
          rw [List.getElem?_eq_none (Nat.one_le_iff_ne_zero.mpr hFirst), List.getElem?_eq_none (not_lt.mp hMore)]
    · cases hStep
  | readStored n =>
    rw [System.step] at hStep
    split at hStep
    · cases hStep
      exact ⟨follows_moved (.inl rfl), hOld rfl⟩
    · cases hStep
  | resume n =>
    rw [System.step] at hStep
    split at hStep
    · cases hStep
      exact ⟨follows_moved (.inr nofun), hOld rfl⟩
    · cases hStep
  | schedule n runArn =>
    rw [System.step] at hStep
    split at hStep
    · rename_i hPhase
      split at hStep
      · cases hStep
      · cases hStep
        refine ⟨follows_moved (.inr nofun), fun m arn hMem => ?_⟩
        rcases List.mem_append.mp hMem with hMem | hMem
        · exact .inl hMem
        · obtain ⟨rfl, -⟩ := Prod.mk.inj (List.mem_singleton.mp hMem)
          exact .inr hPhase
    · cases hStep
  | post n =>
    rw [System.step] at hStep
    split at hStep
    · cases hStep
      exact ⟨fun _ => .inl rfl, hOld rfl⟩
    · cases hStep
  | load k =>
    rw [System.step] at hStep
    split at hStep
    · cases hStep
      exact ⟨fun _ => .inl rfl, hOld rfl⟩
    · cases hStep
  | save now k =>
    rw [System.step] at hStep
    split at hStep
    · split at hStep
      · cases hStep
      · cases hStep
        exact ⟨fun _ => .inl rfl, hOld rfl⟩
    · cases hStep
  | drop k code =>
    rw [System.step] at hStep
    split at hStep
    · cases hStep
    · split at hStep
      · cases hStep
        exact ⟨fun _ => .inl rfl, hOld rfl⟩
      · cases hStep
  | receive k =>
    rw [System.step] at hStep
    split at hStep
    · split at hStep
      · split at hStep
        · cases hStep
          exact ⟨follows_moved (.inr nofun), hOld rfl⟩
        · split at hStep
          · cases hStep
            exact ⟨follows_moved (.inr nofun), hOld rfl⟩
          · cases hStep
            exact ⟨fun _ => .inl rfl, hOld rfl⟩
      · cases hStep
    · cases hStep
  | giveUp n =>
    rw [System.step] at hStep
    split at hStep
    all_goals cases hStep
    all_goals exact ⟨follows_moved (.inr nofun), hOld rfl⟩
  | stop n =>
    rw [System.step] at hStep
    split at hStep
    all_goals cases hStep
    all_goals exact ⟨follows_moved (.inr nofun), hOld rfl⟩

/-- A submit that can only come to collect the stored run. -/
structure Collects (st : System) (n : Nat) : Prop where
  unscheduled : ∀ runArn, (n, runArn) ∉ st.scheduled
  stored : ∃ runArn, st.row.batchRunArn = some runArn
  phase : st.phase n ≠ some (.leased none)

theorem Collects.reaches (h : Collects st n) (hAccounts : Accounts st) (hReaches : Reaches settings st fin) :
    Collects fin n := by
  induction hReaches with
  | refl => exact h
  | tail hBefore hStep ih =>
    obtain ⟨hUnscheduled, ⟨runArn, hStored⟩, hPhase⟩ := ih
    obtain ⟨hFollows, hScheduled⟩ := step_follows hStep
    have hKept := ((hAccounts.reaches hBefore).1.step hStep).2 runArn hStored
    refine ⟨fun arn hMem => ?_, ⟨runArn, hKept⟩, fun hNone => ?_⟩
    · exact (hScheduled n arn hMem).elim (hUnscheduled arn) hPhase
    · rcases hFollows n with hSame | hRead | ⟨phase, hLast, hOther⟩
      · exact hPhase (hSame ▸ hNone)
      · rw [hNone, hStored] at hRead
        cases hRead
      · rw [hNone] at hLast
        exact hOther none (Option.some.inj hLast).symm

theorem Reaches.trans {a b c : System} (hab : Reaches settings a b) (hbc : Reaches settings b c) : Reaches settings a c := by
  induction hbc with
  | refl => exact hab
  | tail _ hStep ih => exact ih.tail hStep

theorem Reaches.of_run {labels : List Label} (h : st.run settings labels = some fin) : Reaches settings st fin := by
  induction labels generalizing st with
  | nil =>
    cases h
    exact .refl _
  | cons label labels ih =>
    obtain ⟨mid, hStep, hRest⟩ := Option.bind_eq_some_iff.mp h
    exact ((Reaches.refl st).tail hStep).trans (ih hRest)

end Bajutsu.Jobs.CloudRuns
