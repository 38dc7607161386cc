import Bajutsu.OnDevice.InterruptionShowing

/-!
# The interruption store answers a showing once

Over every run of calls, with any clock: a showing is answered and given up once between two re-arms, a resolving read
keeps to the pacing, an id goes to an entry of its own showing, and each record leaves in the drain it waits for.
-/

namespace Bajutsu.OnDevice

open PyValue InterruptionPolicyStore

/-! ## The entry a press extends -/

variable {N : Type}

/-- The key and the index of the entry that a press adds its synthesis id to, when it makes no entry of its own. -/
def extendedEntry (s : InterruptionPolicyStore N) : Call N → Option (ShowingKey × Nat)
  | .recordMonitorPress rule _ _ | .notePress rule _ _ _ =>
    if (s.memoOf (.of rule) rule).answered then (s.extends? (s.memoOf (.of rule) rule)).map fun i => (.of rule, i)
    else none
  | _ => none

theorem entryOf_of_extendedEntry {s : InterruptionPolicyStore N} {call : Call N} {k : ShowingKey} {i : Nat}
    (h : extendedEntry s call = some (k, i)) : call.key = some k ∧ s.entryOf k = some (s.generation, i) := by
  have hRule : ∀ rule : InterruptionRule,
      (if (s.memoOf (.of rule) rule).answered then
        (s.extends? (s.memoOf (.of rule) rule)).map fun i => (ShowingKey.of rule, i) else none) = some (k, i) →
      ShowingKey.of rule = k ∧ s.entryOf k = some (s.generation, i) := by
    intro rule hSome
    split at hSome
    · obtain ⟨j, hExtends, hPair⟩ := Option.map_eq_some_iff.mp hSome
      obtain ⟨rfl, rfl⟩ := Prod.mk.inj hPair
      refine ⟨rfl, ?_⟩
      rw [InterruptionPolicyStore.extends?] at hExtends
      split at hExtends
      · rename_i generation index hEntry
        split at hExtends
        · obtain rfl := Option.some.inj hExtends
          subst_vars
          cases hMemo : get s.memo (.of rule) with
          | none => simp [memoOf, hMemo] at hEntry
          | some memo => simpa [entryOf, memoOf, hMemo] using hEntry
        · cases hExtends
      · cases hExtends
    · cases hSome
  cases call with
  | recordMonitorPress rule alert id => exact (hRule rule h).imp_left (congrArg some)
  | notePress rule alert signature id => exact (hRule rule h).imp_left (congrArg some)
  | _ => cases h

theorem ids_pressRecords {s : InterruptionPolicyStore N} {rule : InterruptionRule} {alert ids : List String} {j : Nat}
    (hLt : j < s.records.tappedSynthesisIds.length)
    (hNe : (s.pressRecords (s.memoOf (.of rule) rule) rule alert ids).tappedSynthesisIds[j]? ≠
      s.records.tappedSynthesisIds[j]?) :
    (if (s.memoOf (.of rule) rule).answered then
      (s.extends? (s.memoOf (.of rule) rule)).map fun i => (ShowingKey.of rule, i) else none) =
      some (ShowingKey.of rule, j) := by
  rw [pressRecords] at hNe
  split at hNe
  · rename_i hAnswered
    rw [if_pos hAnswered]
    split at hNe
    · rename_i index hExtends
      rw [hExtends]
      by_cases hIndex : index = j
      · rw [hIndex]
        rfl
      · exact absurd (List.getElem?_modify_ne _ _ hIndex) hNe
    · exact absurd rfl hNe
  · exact absurd (List.getElem?_append_left hLt) hNe

theorem InterruptionPolicyStore.Rewritten.ids {s s' : InterruptionPolicyStore N} {k : ShowingKey} (h : s.Rewritten k s') :
    s'.records.tappedSynthesisIds = s.records.tappedSynthesisIds := by
  cases h with
  | unchanged => rfl
  | written memo => rfl
  | gaveUp memo =>
    rw [giveUpLocked]
    split <;> rfl

variable [Sub N] [LT N] [DecidableLT N] [LE N] [DecidableLE N]

/-- Only a press changes an entry that is there, and it is the entry it extends. -/
theorem extendedEntry_of_changed {s : InterruptionPolicyStore N} {now : N} {call : Call N} {j : Nat}
    (hCloses : call.closes = false) (hLt : j < s.records.tappedSynthesisIds.length)
    (hNe : (step s now call).records.tappedSynthesisIds[j]? ≠ s.records.tappedSynthesisIds[j]?) :
    ∃ k, extendedEntry s call = some (k, j) := by
  cases call with
  | setPolicy => cases hCloses
  | drain => cases hCloses
  | record => exact absurd (List.getElem?_append_left hLt) hNe
  | recordMonitorPress rule alert id => exact ⟨_, ids_pressRecords hLt hNe⟩
  | notePress rule alert signature id => exact ⟨_, ids_pressRecords hLt hNe⟩
  | giveUp rule => exact absurd (congrArg (·[j]?) (Rewritten.gaveUp _).ids) hNe
  | noteNotHittable rule => exact absurd (congrArg (·[j]?) rewritten_noteNotHittable.ids) hNe
  | decide rule signature => exact absurd (congrArg (·[j]?) rewritten_decide.ids) hNe
  | claimSpringboardCheck force =>
    obtain ⟨last, hClaim⟩ := @claimSpringboardCheck_only _ _ s now _ _ force
    rw [step, hClaim] at hNe
    exact absurd rfl hNe
  | _ => exact absurd rfl hNe

/-- The call is about the key, and has added the answered entry at the index. -/
def Made (start : InterruptionPolicyStore N) (k : ShowingKey) (i : Nat) (made : N × Call N) (before : Calls N) : Prop :=
  made.2.key = some k ∧ (runCalls start before).records.tapped.length = i ∧
    (runCalls start (before ++ [made])).records.tapped.length = i + 1

/-- The entry at the index is the key's own: a call about the key made it, and since then nothing has cleared the key,
drained or pushed. -/
def OwnEntry (start : InterruptionPolicyStore N) (calls : Calls N) (k : ShowingKey) (i : Nat) : Prop :=
  ∃ made, History.Since (Made start k i made) made
    (fun call => call.2.closes = false ∧ call.2.clears k = false) calls

/-- The index the memo keeps is into the list as it is now, unless a drain or a push has come since. -/
structure EntriesOwned (start : InterruptionPolicyStore N) (calls : Calls N) : Prop where
  aligned : (runCalls start calls).records.Aligned
  entry : ∀ k generation i, (runCalls start calls).entryOf k = some (generation, i) →
    generation ≤ (runCalls start calls).generation ∧
      (generation = (runCalls start calls).generation →
        i < (runCalls start calls).records.tapped.length ∧ OwnEntry start calls k i)

theorem EntriesOwned.concat {start : InterruptionPolicyStore N} {calls : Calls N} (h : EntriesOwned start calls)
    (call : N × Call N) : EntriesOwned start (calls ++ [call]) := by
  obtain ⟨now, call⟩ := call
  have hRun : runCalls start (calls ++ [(now, call)]) = step (runCalls start calls) now call := runCalls_append _ _ _
  constructor
  · rw [hRun]
    cases hCloses : call.closes with
    | true =>
      rw [(closed_step hCloses).1]
      exact aligned_empty
    | false => exact (added_step hCloses).aligned h.aligned
  · intro k generation i hEntry
    cases hClears : call.clears k with
    | true =>
      rw [hRun, entryOf, memo_cleared hClears] at hEntry
      cases hEntry
    | false =>
      -- the entry is an old one, or this call has made it
      have hOld : (runCalls start calls).entryOf k = some (generation, i) →
          generation ≤ (runCalls start (calls ++ [(now, call)])).generation ∧
            (generation = (runCalls start (calls ++ [(now, call)])).generation →
              i < (runCalls start (calls ++ [(now, call)])).records.tapped.length ∧
                OwnEntry start (calls ++ [(now, call)]) k i) := by
        intro hOld
        obtain ⟨hLe, hOwn⟩ := h.entry k generation i hOld
        rw [hRun]
        cases hCloses : call.closes with
        | true =>
          rw [(closed_step hCloses).2]
          constructor
          · omega
          · intro hEq
            omega
        | false =>
          rw [generation_step hCloses]
          refine ⟨hLe, fun hEq => ?_⟩
          obtain ⟨hLt, made, hSince⟩ := hOwn hEq
          have hGrows : (runCalls start calls).records.tapped.length ≤
              (step (runCalls start calls) now call).records.tapped.length := (added_step hCloses).tapped
          exact ⟨by omega, made, hSince.later ⟨hCloses, hClears⟩⟩
      by_cases hKey : call.key = some k
      · have hMoved : (runCalls start calls).Moved k (step (runCalls start calls) now call) now (call.presses k) :=
          moved_step hKey
        rw [hRun] at hEntry
        rcases hMoved.entry with hSame | ⟨hNew, hLength⟩
        · exact hOld (hSame.symm.trans hEntry)
        · obtain ⟨rfl, rfl⟩ := Prod.mk.inj (Option.some.inj (hNew.symm.trans hEntry))
          rw [hRun, generation_step (closes_of_key hKey)]
          refine ⟨Nat.le_refl _, fun _ => ⟨by omega, (now, call), .here ⟨hKey, rfl, ?_⟩⟩⟩
          rw [hRun]
          exact hLength
      · have hSame : (step (runCalls start calls) now call).entryOf k = (runCalls start calls).entryOf k := by
          rw [entryOf, memo_other hKey hClears]
          rfl
        rw [hRun] at hEntry
        exact hOld (hSame.symm.trans hEntry)

theorem entriesOwned_run (policy : InterruptionPolicy N) (calls : Calls N) : EntriesOwned (newStore policy) calls := by
  induction calls using List.reverseRecOn with
  | nil =>
    constructor
    · exact aligned_empty
    · intro k generation i hEntry
      cases hEntry
  | append_singleton calls call ih => exact ih.concat call

/-! ## The pacing of a resolving read -/

/-- A resolving read notes a press of a key, or a failed one, after a decision to press it, with nothing done to the
key in between. -/
def Orderly (start : InterruptionPolicyStore N) (calls : Calls N) : Prop :=
  ∀ before now call after k, calls = before ++ (now, call) :: after → call.pressedByRead = some k →
    ∃ earlier instant rule signature between, before = earlier ++ (instant, .decide rule signature) :: between ∧
      ShowingKey.of rule = k ∧ ((runCalls start earlier).decide rule signature instant).1 = .press ∧
      ∀ call ∈ between, ¬call.2.touches k

/-- The call gives the key up, or is a decision that stops it. -/
def Stops (s : InterruptionPolicyStore N) (k : ShowingKey) (now : N) (call : Call N) : Prop :=
  call.key = some k ∧ (s.records.gaveUp.length < (step s now call).records.gaveUp.length ∨
    ∃ rule signature, call = .decide rule signature ∧ (s.decide rule signature now).1 = .stop)

/-- What a decision to press a key has behind it: the last press since a re-arm is not within the delay, the presses
since a re-arm, if there are any, are fewer than the most, and a re-arm has come since any stop. -/
structure Paced (start : InterruptionPolicyStore N) (earlier : Calls N) (instant : N) (k : ShowingKey) : Prop where
  spaced : ∀ before last call between, earlier = before ++ (last, call) :: between → call.presses k = true →
    (∀ call ∈ between, call.2.presses k = false ∧ call.2.clears k = false) →
      ¬instant - last < (runCalls start earlier).policy.pacing.retapDelay
  bounded : ∀ before since, earlier = before ++ since → (∀ call ∈ since, call.2.clears k = false) →
    0 < since.countP (fun call => call.2.presses k) →
      (since.countP (fun call => call.2.presses k) : Int) < (runCalls start earlier).policy.pacing.maxTaps
  rearmed : ∀ before now call between, earlier = before ++ (now, call) :: between →
    Stops (runCalls start before) k now call → ∃ call ∈ between, call.2.clears k = true

theorem barred_of_stops {s : InterruptionPolicyStore N} {k : ShowingKey} {now : N} {call : Call N}
    (h : Stops s k now call) : (step s now call).barred k = true := by
  obtain ⟨hKey, hGaveUp | ⟨rule, signature, rfl, hStop⟩⟩ := h
  · have hMoved : s.Moved k (step s now call) now (call.presses k) := moved_step hKey
    have hCount := hMoved.gaveUp
    have hOn : (step s now call).gaveUpOn k = true := by
      cases hOn : (step s now call).gaveUpOn k with
      | true => rfl
      | false =>
        rw [hOn, Bool.toNat_false] at hCount
        omega
    exact barred_of_gaveUpOn hOn
  · obtain rfl := Option.some.inj hKey
    exact decide_stop hStop

theorem paced_of_decide {start : InterruptionPolicyStore N} {earlier : Calls N} {instant : N} {rule : InterruptionRule}
    {signature : Option (List TreeSignatureEntry)}
    (h : ((runCalls start earlier).decide rule signature instant).1 = .press) :
    Paced start earlier instant (.of rule) := by
  obtain ⟨hBarred, hSpaced, hBounded⟩ := decide_press h
  constructor
  · rintro before last call between rfl hPresses hQuiet
    apply hSpaced
    have hKey : call.key = some (.of rule) := by
      by_contra hKey
      rw [presses_eq_false hKey] at hPresses
      cases hPresses
    have hMoved : (runCalls start before).Moved (.of rule) (step (runCalls start before) last call) last
        (call.presses (.of rule)) := moved_step hKey
    rw [runCalls_append, runCalls_cons, (passed_run fun c hMem => (hQuiet c hMem).2).lastPress
      fun c hMem => (hQuiet c hMem).1, hMoved.lastPress, hPresses]
    rfl
  · rintro before since rfl hQuiet hPos
    have hTaps := (@passed_run _ _ _ _ _ _ _ (runCalls start before) since hQuiet).taps
    rw [← runCalls_append] at hTaps
    have hMost := hBounded (by omega)
    omega
  · rintro before now call between rfl hStops
    by_contra hNone
    have hQuiet : ∀ c ∈ between, c.2.clears (.of rule) = false := by
      intro c hMem
      exact Bool.eq_false_iff.mpr fun hClears => hNone ⟨c, hMem, hClears⟩
    have hStill := (passed_run hQuiet).barred (barred_of_stops hStops)
    rw [runCalls_append, runCalls_cons, hStill] at hBarred
    cases hBarred

/-! ## What drains return -/

/-- What a drain returned, or a push dropped. -/
inductive Epoch where
  | returned (records : InterruptionRecords)
  | dropped (records : InterruptionRecords)

def Epoch.records : Epoch → InterruptionRecords
  | .returned records => records
  | .dropped records => records

/-- What the drains of a run returned and its pushes dropped, in order. -/
def epochs : InterruptionPolicyStore N → Calls N → List Epoch
  | _, [] => []
  | s, (now, call) :: calls =>
    (match call with
      | .setPolicy _ _ => [.dropped s.records]
      | .drain => [.returned s.drain.1]
      | _ => []) ++ epochs (step s now call) calls

/-- What the calls of a run recorded in a list, each at its call. -/
def recorded {α : Type} (list : InterruptionRecords → List α) : InterruptionPolicyStore N → Calls N → List α
  | _, [] => []
  | s, (now, call) :: calls =>
    (if call.closes then [] else (list (step s now call).records).drop (list s.records).length) ++
      recorded list (step s now call) calls

/-- Each record is in one place: what a drain returned, what a push dropped, or what is waiting, in the order the
records were made. -/
def Conserved {α : Type} (list : InterruptionRecords → List α) (start : InterruptionPolicyStore N) (calls : Calls N) :
    Prop :=
  (epochs start calls).flatMap (fun epoch => list epoch.records) ++ list (runCalls start calls).records =
    recorded list start calls

/-- A list of the records that a call only adds to. -/
structure Appends {α : Type} (list : InterruptionRecords → List α) : Prop where
  empty : list {} = []
  grows : ∀ r r', r.Aligned → Added r r' → list r <+: list r'

def InterruptionRecords.answers (r : InterruptionRecords) : List (String × List String × AlertSurface) :=
  r.tapped.zip (r.tappedAlerts.zip r.tappedSurfaces)

def InterruptionRecords.bannersWithIds (r : InterruptionRecords) : List (String × List String) :=
  r.banners.zip r.bannerSynthesisIds

theorem appends_answers : Appends InterruptionRecords.answers := by
  refine ⟨rfl, ?_⟩
  intro r r' hr hAdded
  cases hAdded with
  | answered label alert surface ids =>
    refine ⟨[(label, alert, surface)], ?_⟩
    have hPairs : (r.tappedAlerts ++ [alert]).zip (r.tappedSurfaces ++ [surface]) =
        r.tappedAlerts.zip r.tappedSurfaces ++ [(alert, surface)] :=
      List.zip_append (hr.alerts.trans hr.surfaces.symm)
    have hLength : r.tapped.length = (r.tappedAlerts.zip r.tappedSurfaces).length := by
      rw [List.length_zip, hr.alerts, hr.surfaces, Nat.min_self]
    rw [InterruptionRecords.answers, InterruptionRecords.answers, InterruptionRecords.appendAnswered, hPairs,
      List.zip_append hLength]
    rfl
  | _ => exact List.prefix_rfl

theorem appends_bannersWithIds : Appends InterruptionRecords.bannersWithIds := by
  refine ⟨rfl, ?_⟩
  intro r r' hr hAdded
  cases hAdded with
  | banner label ids =>
    refine ⟨[(label, ids)], ?_⟩
    rw [InterruptionRecords.bannersWithIds, InterruptionRecords.bannersWithIds, List.zip_append hr.banners.symm]
    rfl
  | _ => exact List.prefix_rfl

theorem appends_declined : Appends InterruptionRecords.declined := by
  refine ⟨rfl, ?_⟩
  intro r r' _ hAdded
  cases hAdded with
  | declined buttons => exact List.prefix_append _ _
  | _ => exact List.prefix_rfl

theorem appends_unidentified : Appends InterruptionRecords.unidentified := by
  refine ⟨rfl, ?_⟩
  intro r r' _ hAdded
  cases hAdded with
  | unidentified buttons => exact List.prefix_append _ _
  | _ => exact List.prefix_rfl

theorem appends_gaveUp : Appends InterruptionRecords.gaveUp := by
  refine ⟨rfl, ?_⟩
  intro r r' _ hAdded
  cases hAdded with
  | gaveUp record => exact List.prefix_append _ _
  | _ => exact List.prefix_rfl

theorem epochs_cons (s : InterruptionPolicyStore N) (now : N) (call : Call N) (calls : Calls N)
    {α : Type} (list : InterruptionRecords → List α) :
    (epochs s ((now, call) :: calls)).flatMap (fun epoch => list epoch.records) =
      (if call.closes then list s.records else []) ++
        (epochs (step s now call) calls).flatMap fun epoch => list epoch.records := by
  cases call <;> simp [epochs, Call.closes, Epoch.records, drain]

theorem Appends.run {α : Type} {list : InterruptionRecords → List α} (h : Appends list)
    {s : InterruptionPolicyStore N} {calls : Calls N} (hs : s.records.Aligned) :
    (epochs s calls).flatMap (fun epoch => list epoch.records) ++ list (runCalls s calls).records =
      list s.records ++ recorded list s calls := by
  induction calls generalizing s with
  | nil => exact (List.append_nil _).symm
  | cons call calls ih =>
    obtain ⟨now, call⟩ := call
    rw [epochs_cons, List.append_assoc, runCalls_cons, recorded]
    cases hCloses : call.closes with
    | true =>
      have hEmpty : (step s now call).records = {} := (closed_step hCloses).1
      rw [ih (by rw [hEmpty]; exact aligned_empty), hEmpty, h.empty]
      rfl
    | false =>
      have hAdded : Added s.records (step s now call).records := added_step hCloses
      obtain ⟨new, hNew⟩ := h.grows _ _ hs hAdded
      rw [ih (hAdded.aligned hs), ← hNew, List.drop_left]
      exact List.append_assoc _ _ _

theorem Appends.conserved {α : Type} {list : InterruptionRecords → List α} (h : Appends list)
    (policy : InterruptionPolicy N) (calls : Calls N) : Conserved list (newStore policy) calls := by
  rw [Conserved, h.run aligned_empty]
  exact congrArg (· ++ _) h.empty

/-! ## The store -/

/-- What holds of a run of the store, whatever the clock says. -/
structure AnsweredOnce (start : InterruptionPolicyStore N) (calls : Calls N) : Prop where
  once : ∀ before segment after k, calls = before ++ segment ++ after →
    (∀ call ∈ segment, call.2.clears k = false) →
      recordedFor (·.tapped.length) k (runCalls start before) segment ≤ 1 ∧
        recordedFor (·.gaveUp.length) k (runCalls start before) segment ≤ 1
  paced : ∀ before now call after k, calls = before ++ (now, call) :: after → call.pressedByRead = some k →
    ∃ earlier instant rule signature between, before = earlier ++ (instant, .decide rule signature) :: between ∧
      ShowingKey.of rule = k ∧ (∀ call ∈ between, ¬call.2.touches k) ∧ Paced start earlier instant k
  aligned : ∀ before after, calls = before ++ after → (runCalls start before).records.Aligned
  inBounds : ∀ before call after k i, calls = before ++ call :: after →
    extendedEntry (runCalls start before) call.2 = some (k, i) →
      i < (runCalls start before).records.tappedSynthesisIds.length
  ownEntry : ∀ before now call after i, calls = before ++ (now, call) :: after → call.closes = false →
    i < (runCalls start before).records.tappedSynthesisIds.length →
    (step (runCalls start before) now call).records.tappedSynthesisIds[i]? ≠
      (runCalls start before).records.tappedSynthesisIds[i]? →
    ∃ k, call.key = some k ∧ OwnEntry start before k i
  answers : Conserved InterruptionRecords.answers start calls
  declined : Conserved InterruptionRecords.declined start calls
  banners : Conserved InterruptionRecords.bannersWithIds start calls
  unidentified : Conserved InterruptionRecords.unidentified start calls
  gaveUp : Conserved InterruptionRecords.gaveUp start calls

theorem interruption_answered_once (policy : InterruptionPolicy N) (calls : Calls N)
    (hOrderly : Orderly (newStore policy) calls) : AnsweredOnce (newStore policy) calls where
  once := by
    intro before segment after k _ hClears
    obtain ⟨-, -, hAnswered, hGaveUp, -⟩ :=
      @passed_run _ _ _ _ _ _ k (runCalls (newStore policy) before) segment hClears
    have hOne : ∀ b : Bool, b.toNat ≤ 1 := Bool.toNat_le
    have := hOne ((runCalls (runCalls (newStore policy) before) segment).answered k)
    have := hOne ((runCalls (runCalls (newStore policy) before) segment).gaveUpOn k)
    constructor <;> omega
  paced := by
    intro before now call after k hEq hPressed
    obtain ⟨earlier, instant, rule, signature, between, hBefore, rfl, hPress, hBetween⟩ :=
      hOrderly before now call after k hEq hPressed
    exact ⟨earlier, instant, rule, signature, between, hBefore, rfl, hBetween, paced_of_decide hPress⟩
  aligned := fun before _ _ => (entriesOwned_run policy before).aligned
  inBounds := by
    intro before call after k i _ hExtended
    have hOwned := entriesOwned_run policy before
    obtain ⟨-, hEntry⟩ := entryOf_of_extendedEntry hExtended
    obtain ⟨hLt, -⟩ := (hOwned.entry k _ i hEntry).2 rfl
    rwa [hOwned.aligned.synthesisIds]
  ownEntry := by
    intro before now call after i _ hCloses hLt hNe
    obtain ⟨k, hExtended⟩ := extendedEntry_of_changed hCloses hLt hNe
    obtain ⟨hKey, hEntry⟩ := entryOf_of_extendedEntry hExtended
    obtain ⟨-, hOwn⟩ := ((entriesOwned_run policy before).entry k _ i hEntry).2 rfl
    exact ⟨k, hKey, hOwn⟩
  answers := appends_answers.conserved policy calls
  declined := appends_declined.conserved policy calls
  banners := appends_bannersWithIds.conserved policy calls
  unidentified := appends_unidentified.conserved policy calls
  gaveUp := appends_gaveUp.conserved policy calls

/-- A notification prompt, and a scenario that presses its button once. -/
def notificationRule : InterruptionRule := ⟨["Allow", "Don’t Allow"], "Allow", [], .native⟩

def pacingOf (maxTaps : Int) : InterruptionPolicy Int := ⟨[notificationRule], true, ⟨1, 1, maxTaps, 2⟩⟩

def pressedOnce (policy : InterruptionPolicy Int) : Calls Int :=
  [(0, .setPolicy policy true), (1, .decide notificationRule none),
    (1, .notePress notificationRule notificationRule.identify none none)]

theorem orderly_pressedOnce (policy : InterruptionPolicy Int) : Orderly (newStore policy) (pressedOnce policy) := by
  intro before now call after k hEq hPressed
  match before, hEq with
  | [], hEq =>
    obtain ⟨hCall, -⟩ := List.cons.inj hEq
    obtain ⟨rfl, rfl⟩ := Prod.mk.inj hCall
    cases hPressed
  | [_], hEq =>
    obtain ⟨hCall, -⟩ := List.cons.inj (List.cons.inj hEq).2
    obtain ⟨rfl, rfl⟩ := Prod.mk.inj hCall
    cases hPressed
  | [_, _], hEq =>
    simp only [pressedOnce, List.cons_append, List.nil_append, List.cons.injEq, Prod.mk.injEq] at hEq
    obtain ⟨rfl, rfl, ⟨rfl, rfl⟩, -⟩ := hEq
    refine ⟨[(0, .setPolicy policy true)], 1, notificationRule, none, [], rfl, Option.some.inj hPressed, rfl, ?_⟩
    simp
  | _ :: _ :: _ :: _, hEq => simp [pressedOnce] at hEq

theorem notification_answered_once : AnsweredOnce (newStore (pacingOf 3)) (pressedOnce (pacingOf 3)) :=
  interruption_answered_once (pacingOf 3) _ (orderly_pressedOnce _)

/-- With no presses allowed, a showing that has not been seen is pressed all the same. -/
theorem first_press_past_the_ceiling :
    ¬∀ (policy : InterruptionPolicy Int) (calls : Calls Int), Orderly (newStore policy) calls →
      ∀ before now call after k, calls = before ++ (now, call) :: after → call.pressedByRead = some k →
        ((runCalls (newStore policy) before).taps k : Int) <
          (runCalls (newStore policy) before).policy.pacing.maxTaps := by
  intro hAll
  have hPress := hAll (pacingOf 0) (pressedOnce (pacingOf 0)) (orderly_pressedOnce _)
    [(0, .setPolicy (pacingOf 0) true), (1, .decide notificationRule none)] 1
    (.notePress notificationRule notificationRule.identify none none) [] (.of notificationRule) rfl rfl
  exact absurd hPress (by decide)

end Bajutsu.OnDevice
