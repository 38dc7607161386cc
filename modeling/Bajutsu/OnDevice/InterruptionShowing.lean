import Bajutsu.Lib.History
import Bajutsu.OnDevice.InterruptionPolicy

/-!
# One showing between two re-arms

What a call does to one key: which calls press it, which clear its memo, and what every other call leaves of it. From
one call to a run of calls that does not clear the key.
-/

namespace Bajutsu.OnDevice

open PyValue

section Keys

variable {N : Type}

/-- The showing a call is about. -/
def Call.key : Call N → Option ShowingKey
  | .recordMonitorPress rule _ _ | .decide rule _ | .notePress rule _ _ _ | .noteFailedPress rule | .giveUp rule
  | .noteNotHittable rule => some (.of rule)
  | _ => none

/-- The showing a resolving read notes a press of, or a press that failed. -/
def Call.pressedByRead : Call N → Option ShowingKey
  | .notePress rule _ _ _ | .noteFailedPress rule => some (.of rule)
  | _ => none

def Call.presses (k : ShowingKey) : Call N → Bool
  | .recordMonitorPress rule _ _ | .notePress rule _ _ _ | .noteFailedPress rule => ShowingKey.of rule = k
  | _ => false

/-- A scenario-start push, or a re-arm of the key. -/
def Call.clears (k : ShowingKey) : Call N → Bool
  | .setPolicy _ scenarioStart => scenarioStart
  | .rearmNative kept => k.surface = .native ∧ some k ≠ kept.map ShowingKey.of
  | .rearmInTree labels => k.surface = .inTree ∧ ¬k.name.all fun name => name ∈ labels
  | _ => false

def Call.touches (k : ShowingKey) (call : Call N) : Prop := call.key = some k ∨ call.clears k = true

/-- A push or a drain: what was recorded before it is dropped, or returned. -/
def Call.closes : Call N → Bool
  | .setPolicy _ _ | .drain => true
  | _ => false

end Keys

theorem get_filter_key {κ β : Type} [DecidableEq κ] (p : κ → Bool) (d : List (κ × β)) (k : κ) :
    get (d.filter fun item => p item.1) k = if p k then get d k else none := by
  induction d with
  | nil => simp
  | cons item d ih =>
    by_cases hItem : p item.1 = true
    · rw [List.filter_cons_of_pos (by exact hItem), get_cons, get_cons, ih]
      by_cases hk : item.1 = k
      · subst hk
        simp [hItem]
      · simp [hk]
    · rw [List.filter_cons_of_neg (by exact hItem), ih, get_cons]
      by_cases hk : item.1 = k
      · subst hk
        simp [hItem]
      · simp [hk]

/-! ## What the records gain -/

/-- What a call that closes nothing does to the records. -/
inductive Added (r : InterruptionRecords) : InterruptionRecords → Prop
  | nothing : Added r r
  | answered label alert surface ids : Added r (r.appendAnswered label alert surface ids)
  | extended index ids : Added r (r.extendAnswered index ids)
  | declined buttons : Added r { r with declined := r.declined ++ [buttons] }
  | banner label ids :
    Added r { r with banners := r.banners ++ [label], bannerSynthesisIds := r.bannerSynthesisIds ++ [ids] }
  | unidentified buttons : Added r { r with unidentified := r.unidentified ++ [buttons] }
  | gaveUp record : Added r { r with gaveUp := r.gaveUp ++ [record] }

/-- The lists named for a tap have one entry for each answer, and the banner's ids one for each banner. -/
structure InterruptionRecords.Aligned (r : InterruptionRecords) : Prop where
  alerts : r.tappedAlerts.length = r.tapped.length
  surfaces : r.tappedSurfaces.length = r.tapped.length
  synthesisIds : r.tappedSynthesisIds.length = r.tapped.length
  banners : r.bannerSynthesisIds.length = r.banners.length

theorem aligned_empty : InterruptionRecords.Aligned {} := ⟨rfl, rfl, rfl, rfl⟩

theorem Added.aligned {r r' : InterruptionRecords} (h : Added r r') (hr : r.Aligned) : r'.Aligned := by
  obtain ⟨hAlerts, hSurfaces, hIds, hBanners⟩ := hr
  cases h with
  | nothing => exact ⟨hAlerts, hSurfaces, hIds, hBanners⟩
  | answered => constructor <;> simp [InterruptionRecords.appendAnswered, *]
  | extended => constructor <;> simp [InterruptionRecords.extendAnswered, *]
  | declined => exact ⟨hAlerts, hSurfaces, hIds, hBanners⟩
  | banner => constructor <;> simp [*]
  | unidentified => exact ⟨hAlerts, hSurfaces, hIds, hBanners⟩
  | gaveUp => exact ⟨hAlerts, hSurfaces, hIds, hBanners⟩

theorem Added.tapped {r r' : InterruptionRecords} (h : Added r r') : r.tapped.length ≤ r'.tapped.length := by
  cases h <;> simp [InterruptionRecords.appendAnswered, InterruptionRecords.extendAnswered]

namespace InterruptionPolicyStore

section Views

variable {N : Type} (s : InterruptionPolicyStore N) (k : ShowingKey)

def taps : Nat := (get s.memo k).elim 0 (·.taps)

def lastPress : Option N := (get s.memo k).bind (·.lastPress)

def answered : Bool := (get s.memo k).any (·.answered)

def gaveUpOn : Bool := (get s.memo k).any (·.gaveUp)

def barred : Bool := (get s.memo k).any fun memo => memo.declined || memo.gaveUp

def entryOf : Option (Nat × Nat) := (get s.memo k).bind (·.entry)

/-- What a call about the key does to its memo, and to the two lists the memo bounds. -/
structure Moved (s' : InterruptionPolicyStore N) (now : N) (pressed : Bool) : Prop where
  taps : s'.taps k = s.taps k + pressed.toNat
  lastPress : s'.lastPress k = if pressed then some now else s.lastPress k
  answered : (s'.answered k).toNat + s.records.tapped.length = (s.answered k).toNat + s'.records.tapped.length
  gaveUp : (s'.gaveUpOn k).toNat + s.records.gaveUp.length = (s.gaveUpOn k).toNat + s'.records.gaveUp.length
  barred : s.barred k = true → s'.barred k = true
  entry : s'.entryOf k = s.entryOf k ∨ s'.entryOf k = some (s.generation, s.records.tapped.length) ∧
    s'.records.tapped.length = s.records.tapped.length + 1

theorem Moved.refl (now : N) : s.Moved k s now false :=
  ⟨rfl, rfl, rfl, rfl, id, .inl rfl⟩

variable {s k}

theorem Moved.of_set {s' : InterruptionPolicyStore N} {rule : InterruptionRule} {memo memo' : ShowingMemo N} {now : N}
    {pressed : Bool} (hMemo : s.memoOf k rule = memo) (hSet : s'.memo = PyValue.set s.memo k memo')
    (hTaps : memo'.taps = memo.taps + pressed.toNat)
    (hLast : memo'.lastPress = if pressed then some now else memo.lastPress)
    (hAnswered : memo'.answered.toNat + s.records.tapped.length = memo.answered.toNat + s'.records.tapped.length)
    (hGaveUp : memo'.gaveUp.toNat + s.records.gaveUp.length = memo.gaveUp.toNat + s'.records.gaveUp.length)
    (hBarred : (memo.declined || memo.gaveUp) = true → (memo'.declined || memo'.gaveUp) = true)
    (hEntry : memo'.entry = memo.entry ∨ memo'.entry = some (s.generation, s.records.tapped.length) ∧
      s'.records.tapped.length = s.records.tapped.length + 1) : s.Moved k s' now pressed := by
  have hGet : get s'.memo k = some memo' := by rw [hSet, get_set_self]
  subst hMemo
  cases hOld : get s.memo k with
  | none =>
    have hMemoOf : s.memoOf k rule = { rule } := by simp [memoOf, hOld]
    rw [hMemoOf] at hTaps hLast hAnswered hGaveUp hBarred hEntry
    constructor <;> simp_all [InterruptionPolicyStore.taps, InterruptionPolicyStore.lastPress,
      InterruptionPolicyStore.answered, gaveUpOn, InterruptionPolicyStore.barred, entryOf]
  | some memo =>
    have hMemoOf : s.memoOf k rule = memo := by simp [memoOf, hOld]
    rw [hMemoOf] at hTaps hLast hAnswered hGaveUp hBarred hEntry
    constructor <;> simp_all [InterruptionPolicyStore.taps, InterruptionPolicyStore.lastPress,
      InterruptionPolicyStore.answered, gaveUpOn, InterruptionPolicyStore.barred, entryOf]

theorem moved_notePressLocked (rule : InterruptionRule) (alert : List String)
    (signature : Option (List TreeSignatureEntry)) (synthesisId : Option String) (now : N) :
    s.Moved k (s.notePressLocked k rule alert signature synthesisId now) now true := by
  have hRecords : (s.notePressLocked k rule alert signature synthesisId now).records =
      s.pressRecords (s.memoOf k rule) rule alert synthesisId.toList := rfl
  by_cases hAnswered : (s.memoOf k rule).answered = true
  · have hSize : (s.pressRecords (s.memoOf k rule) rule alert synthesisId.toList).tapped = s.records.tapped ∧
        (s.pressRecords (s.memoOf k rule) rule alert synthesisId.toList).gaveUp = s.records.gaveUp := by
      rw [pressRecords, if_pos hAnswered]
      split <;> exact ⟨rfl, rfl⟩
    refine .of_set rfl rfl rfl rfl ?_ ?_ id (.inl ?_)
    · rw [hRecords, hSize.1, hAnswered]
      rfl
    · rw [hRecords, hSize.2]
      rfl
    · simp [pressMemo, hAnswered]
  · have hSize : s.pressRecords (s.memoOf k rule) rule alert synthesisId.toList =
        s.records.appendAnswered rule.tap alert rule.surface synthesisId.toList := by
      rw [pressRecords, if_neg hAnswered]
    refine .of_set rfl rfl rfl rfl ?_ ?_ id (.inr ⟨?_, ?_⟩)
    · rw [hRecords, hSize]
      simp [pressMemo, InterruptionRecords.appendAnswered, hAnswered, Nat.add_comm]
    · rw [hRecords, hSize]
      rfl
    · simp [pressMemo, hAnswered]
    · rw [hRecords, hSize]
      simp [InterruptionRecords.appendAnswered]

theorem moved_giveUpLocked (rule : InterruptionRule) (now : N) :
    s.Moved k (s.giveUpLocked k (s.memoOf k rule)) now false := by
  by_cases hGaveUp : (s.memoOf k rule).gaveUp = true
  · rw [giveUpLocked, if_pos hGaveUp]
    exact .of_set rfl rfl rfl rfl rfl rfl id (.inl rfl)
  · rw [giveUpLocked, if_neg hGaveUp]
    refine .of_set rfl rfl rfl rfl rfl ?_ ?_ (.inl rfl)
    · simp [hGaveUp, Nat.add_comm]
    · simp

/-- What a call that presses nothing leaves: the store, a memo written back, or a showing given up. -/
inductive Rewritten (s : InterruptionPolicyStore N) (k : ShowingKey) : InterruptionPolicyStore N → Prop
  | unchanged : Rewritten s k s
  | written memo : Rewritten s k { s with memo := PyValue.set s.memo k memo }
  | gaveUp memo : Rewritten s k (s.giveUpLocked k memo)

theorem added_giveUpLocked (memo : ShowingMemo N) : Added s.records (s.giveUpLocked k memo).records := by
  rw [giveUpLocked]
  split
  · exact .nothing
  · exact .gaveUp _

theorem Rewritten.added {s' : InterruptionPolicyStore N} (h : s.Rewritten k s') : Added s.records s'.records := by
  cases h with
  | unchanged => exact .nothing
  | written memo => exact .nothing
  | gaveUp memo => exact added_giveUpLocked memo

theorem added_pressRecords (memo : ShowingMemo N) (rule : InterruptionRule) (alert ids : List String) :
    Added s.records (s.pressRecords memo rule alert ids) := by
  rw [pressRecords]
  split
  · split
    · exact .extended _ _
    · exact .nothing
  · exact .answered _ _ _ _

theorem Rewritten.generation {s' : InterruptionPolicyStore N} (h : s.Rewritten k s') :
    s'.generation = s.generation := by
  cases h with
  | unchanged => rfl
  | written memo => rfl
  | gaveUp memo =>
    rw [giveUpLocked]
    split <;> rfl

theorem Rewritten.memo_other {s' : InterruptionPolicyStore N} {j : ShowingKey} (h : s.Rewritten j s') (hj : k ≠ j) :
    get s'.memo k = get s.memo k := by
  cases h with
  | unchanged => rfl
  | written memo => exact get_set_ne _ _ hj
  | gaveUp memo =>
    rw [giveUpLocked]
    split <;> exact get_set_ne _ _ hj

theorem barred_of_gaveUpOn (h : s.gaveUpOn k = true) :
    s.barred k = true := by
  rw [gaveUpOn] at h
  rw [InterruptionPolicyStore.barred]
  cases hMemo : get s.memo k with
  | none =>
    rw [hMemo] at h
    cases h
  | some memo =>
    rw [hMemo] at h
    have hGaveUp : memo.gaveUp = true := h
    exact (congrArg _ hGaveUp).trans (Bool.or_true _)

theorem barred_giveUpLocked (memo : ShowingMemo N) : (s.giveUpLocked k memo).barred k = true := by
  rw [giveUpLocked]
  split <;> simp [InterruptionPolicyStore.barred, *]

end Views

section Decisions

variable {N : Type} [Sub N] {s : InterruptionPolicyStore N} {rule : InterruptionRule}
  {signature : Option (List TreeSignatureEntry)} {now : N}

theorem rewritten_noteNotHittable [LE N] [DecidableLE N] : s.Rewritten (.of rule) (s.noteNotHittable rule now) := by
  rw [noteNotHittable]
  split
  · split
    · exact .gaveUp _
    · exact .written _
  · exact .written _

theorem moved_noteNotHittable [LE N] [DecidableLE N] : s.Moved (.of rule) (s.noteNotHittable rule now) now false := by
  rw [noteNotHittable]
  split
  · split
    · exact moved_giveUpLocked rule now
    · exact .of_set rfl rfl rfl rfl rfl rfl id (.inl rfl)
  · exact .of_set rfl rfl rfl rfl rfl rfl id (.inl rfl)

variable [LT N] [DecidableLT N]

theorem rewritten_decide : s.Rewritten (.of rule) (s.decide rule signature now).2 := by
  rw [decide]
  split
  · exact .unchanged
  split
  · exact .unchanged
  split
  · exact .unchanged
  split
  · exact .written _
  split
  · exact .gaveUp _
  · exact .unchanged

theorem claimSpringboardCheck_only (force : Bool) :
    ∃ last, (s.claimSpringboardCheck force now).2 = { s with lastSpringboardCheck := last } := by
  rw [claimSpringboardCheck]
  split
  · split
    · exact ⟨_, rfl⟩
    · exact ⟨_, rfl⟩
  · exact ⟨_, rfl⟩

theorem moved_decide : s.Moved (.of rule) (s.decide rule signature now).2 now false := by
  rw [decide]
  split
  · exact .refl s _ now
  · rename_i memo hMemo
    have hMemoOf : s.memoOf (.of rule) rule = memo := by simp [memoOf, hMemo]
    split
    · exact .refl s _ now
    split
    · exact .refl s _ now
    split
    · exact .of_set hMemoOf rfl rfl rfl rfl rfl (fun _ => rfl) (.inl rfl)
    split
    · rw [← hMemoOf]
      exact moved_giveUpLocked rule now
    · exact .refl s _ now

/-- A decision to press: the showing is not stopped, its last press is long enough ago, and presses are left. -/
theorem decide_press (h : (s.decide rule signature now).1 = .press) :
    s.barred (.of rule) = false ∧
      (∀ last, s.lastPress (.of rule) = some last → ¬now - last < s.policy.pacing.retapDelay) ∧
      (0 < s.taps (.of rule) → (s.taps (.of rule) : Int) < s.policy.pacing.maxTaps) := by
  rw [decide] at h
  cases hMemo : get s.memo (.of rule) with
  | none => simp [InterruptionPolicyStore.barred, InterruptionPolicyStore.lastPress, InterruptionPolicyStore.taps, hMemo]
  | some memo =>
    rw [hMemo] at h
    simp only at h
    by_cases hBarred : (memo.declined || memo.gaveUp) = true
    · rw [if_pos hBarred] at h
      cases h
    rw [if_neg hBarred] at h
    by_cases hSoon : s.tooSoon memo now = true
    · rw [if_pos hSoon] at h
      cases h
    rw [if_neg hSoon] at h
    by_cases hChanged : changedScreen memo signature = true
    · rw [if_pos hChanged] at h
      cases h
    rw [if_neg hChanged] at h
    by_cases hTaps : s.policy.pacing.maxTaps ≤ memo.taps
    · rw [if_pos hTaps] at h
      cases h
    simp only [InterruptionPolicyStore.barred, InterruptionPolicyStore.lastPress, InterruptionPolicyStore.taps, hMemo]
    refine ⟨Bool.eq_false_iff.mpr hBarred, ?_, fun _ => Int.not_le.mp hTaps⟩
    intro last hLast
    simpa [tooSoon, show memo.lastPress = some last by exact hLast] using hSoon

theorem decide_stop (h : (s.decide rule signature now).1 = .stop) :
    (s.decide rule signature now).2.barred (.of rule) = true := by
  rw [decide] at h ⊢
  cases hMemo : get s.memo (.of rule) with
  | none =>
    rw [hMemo] at h
    cases h
  | some memo =>
    rw [hMemo] at h
    simp only at h ⊢
    by_cases hBarred : (memo.declined || memo.gaveUp) = true
    · rw [if_pos hBarred]
      simpa [InterruptionPolicyStore.barred, hMemo] using hBarred
    rw [if_neg hBarred] at h ⊢
    by_cases hSoon : s.tooSoon memo now = true
    · rw [if_pos hSoon] at h
      cases h
    rw [if_neg hSoon] at h ⊢
    by_cases hChanged : changedScreen memo signature = true
    · rw [if_pos hChanged]
      simp [InterruptionPolicyStore.barred]
    rw [if_neg hChanged] at h ⊢
    by_cases hTaps : s.policy.pacing.maxTaps ≤ memo.taps
    · rw [if_pos hTaps]
      exact barred_giveUpLocked memo
    · rw [if_neg hTaps] at h
      cases h

end Decisions

end InterruptionPolicyStore

/-! ## One call -/

section Steps

variable {N : Type} {s : InterruptionPolicyStore N} {k : ShowingKey} {now : N} {call : Call N}

open InterruptionPolicyStore

theorem presses_eq_false (hKey : call.key ≠ some k) : call.presses k = false := by
  cases call <;> simp_all [Call.key, Call.presses]

theorem closes_of_key (hKey : call.key = some k) : call.closes = false := by
  cases call <;> first | rfl | cases hKey

theorem get_rearmNative (kept : Option InterruptionRule) :
    get (s.rearmNative kept).memo k =
      if (Call.rearmNative kept : Call N).clears k then none else get s.memo k := by
  rw [rearmNative, get_filter_key fun j : ShowingKey => decide (j.surface ≠ .native) || some j = kept.map ShowingKey.of]
  by_cases hSurface : k.surface = .native
  · by_cases hKept : some k = kept.map ShowingKey.of
    · simp [Call.clears, hKept]
    · simp [Call.clears, hSurface, hKept]
  · simp [Call.clears, hSurface]

theorem get_rearmInTree (labels : List String) :
    get (s.rearmInTree labels).memo k =
      if (Call.rearmInTree labels : Call N).clears k then none else get s.memo k := by
  rw [rearmInTree, get_filter_key fun j : ShowingKey => decide (j.surface ≠ .inTree) || j.name.all fun name => name ∈ labels]
  by_cases hSurface : k.surface = .inTree
  · cases hAll : k.name.all fun name => name ∈ labels with
    | false => simp only [Call.clears, hSurface, hAll]; rfl
    | true => simp only [Call.clears, hSurface, hAll]; rfl
  · simp [Call.clears, hSurface]

variable [Sub N] [LT N] [DecidableLT N] [LE N] [DecidableLE N]

theorem moved_step (hKey : call.key = some k) : s.Moved k (step s now call) now (call.presses k) := by
  cases call with
  | recordMonitorPress rule alert id =>
    obtain rfl := Option.some.inj hKey
    rw [show (Call.recordMonitorPress rule alert id : Call N).presses (.of rule) = true by simp [Call.presses]]
    exact moved_notePressLocked rule alert none id now
  | notePress rule alert signature id =>
    obtain rfl := Option.some.inj hKey
    rw [show (Call.notePress rule alert signature id : Call N).presses (.of rule) = true by simp [Call.presses]]
    exact moved_notePressLocked rule alert signature id now
  | noteFailedPress rule =>
    obtain rfl := Option.some.inj hKey
    rw [show (Call.noteFailedPress rule : Call N).presses (.of rule) = true by simp [Call.presses]]
    exact .of_set rfl rfl rfl rfl rfl rfl id (.inl rfl)
  | giveUp rule =>
    obtain rfl := Option.some.inj hKey
    exact moved_giveUpLocked rule now
  | noteNotHittable rule =>
    obtain rfl := Option.some.inj hKey
    exact moved_noteNotHittable
  | decide rule signature =>
    obtain rfl := Option.some.inj hKey
    exact moved_decide
  | _ => cases hKey

/-- A call about another key that does not clear this one leaves its memo. -/
theorem memo_other (hKey : call.key ≠ some k) (hClears : call.clears k = false) :
    get (step s now call).memo k = get s.memo k := by
  have hNe : ∀ {rule}, some (ShowingKey.of rule) ≠ some k → k ≠ ShowingKey.of rule := by
    rintro rule hNe rfl
    exact hNe rfl
  cases call with
  | setPolicy policy scenarioStart => simp_all [step, setPolicy, Call.clears]
  | recordMonitorPress rule alert id => exact get_set_ne _ _ (hNe hKey)
  | notePress rule alert signature id => exact get_set_ne _ _ (hNe hKey)
  | noteFailedPress rule => exact get_set_ne _ _ (hNe hKey)
  | giveUp rule => exact (Rewritten.gaveUp _).memo_other (hNe hKey)
  | noteNotHittable rule => exact rewritten_noteNotHittable.memo_other (hNe hKey)
  | decide rule signature => exact rewritten_decide.memo_other (hNe hKey)
  | rearmNative kept => exact (get_rearmNative kept).trans (if_neg (Bool.eq_false_iff.mp hClears))
  | rearmInTree labels => exact (get_rearmInTree labels).trans (if_neg (Bool.eq_false_iff.mp hClears))
  | claimSpringboardCheck force =>
    obtain ⟨last, hClaim⟩ := @claimSpringboardCheck_only _ _ s now _ _ force
    rw [step, hClaim]
  | _ => rfl

theorem memo_cleared (hClears : call.clears k = true) : get (step s now call).memo k = none := by
  cases call with
  | setPolicy policy scenarioStart => simp_all [step, setPolicy, Call.clears]
  | rearmNative kept => exact (get_rearmNative kept).trans (if_pos hClears)
  | rearmInTree labels => exact (get_rearmInTree labels).trans (if_pos hClears)
  | _ => cases hClears

theorem added_step (hCloses : call.closes = false) : Added s.records (step s now call).records := by
  cases call with
  | setPolicy => cases hCloses
  | drain => cases hCloses
  | record => exact .answered _ _ _ _
  | recordDeclined => exact .declined _
  | recordBanner => exact .banner _ _
  | recordUnidentified => exact .unidentified _
  | recordMonitorPress => exact added_pressRecords _ _ _ _
  | notePress => exact added_pressRecords _ _ _ _
  | noteFailedPress => exact .nothing
  | giveUp => exact added_giveUpLocked _
  | noteNotHittable => exact rewritten_noteNotHittable.added
  | decide => exact rewritten_decide.added
  | rearmNative => exact .nothing
  | rearmInTree => exact .nothing
  | claimSpringboardCheck force =>
    obtain ⟨last, hClaim⟩ := @claimSpringboardCheck_only _ _ s now _ _ force
    rw [step, hClaim]
    exact .nothing

theorem closed_step (hCloses : call.closes = true) :
    (step s now call).records = {} ∧ (step s now call).generation = s.generation + 1 := by
  cases call with
  | setPolicy => exact ⟨rfl, rfl⟩
  | drain => exact ⟨rfl, rfl⟩
  | _ => cases hCloses

theorem generation_step (hCloses : call.closes = false) : (step s now call).generation = s.generation := by
  cases call with
  | setPolicy => cases hCloses
  | drain => cases hCloses
  | giveUp => exact (Rewritten.gaveUp _).generation
  | noteNotHittable => exact rewritten_noteNotHittable.generation
  | decide => exact rewritten_decide.generation
  | claimSpringboardCheck force =>
    obtain ⟨last, hClaim⟩ := @claimSpringboardCheck_only _ _ s now _ _ force
    rw [step, hClaim]
  | _ => rfl

end Steps

/-! ## A run that does not clear the key -/

section Runs

variable {N : Type} [Sub N] [LT N] [DecidableLT N] [LE N] [DecidableLE N]

open InterruptionPolicyStore

@[simp] theorem runCalls_nil (s : InterruptionPolicyStore N) : runCalls s [] = s := rfl

@[simp] theorem runCalls_cons (s : InterruptionPolicyStore N) (call : N × Call N) (calls : Calls N) :
    runCalls s (call :: calls) = runCalls (step s call.1 call.2) calls := rfl

theorem runCalls_append (s : InterruptionPolicyStore N) (before after : Calls N) :
    runCalls s (before ++ after) = runCalls (runCalls s before) after := List.foldl_append

/-- How many entries of a list of the records the calls about the key add. -/
def recordedFor (size : InterruptionRecords → Nat) (k : ShowingKey) : InterruptionPolicyStore N → Calls N → Nat
  | _, [] => 0
  | s, (now, call) :: calls =>
    (if call.key = some k then size (step s now call).records - size s.records else 0) +
      recordedFor size k (step s now call) calls

variable {k : ShowingKey}

/-- What calls that do not clear the key do to its memo, all of them together. -/
structure Passed (k : ShowingKey) (s s' : InterruptionPolicyStore N) (calls : Calls N) : Prop where
  taps : s'.taps k = s.taps k + calls.countP fun call => call.2.presses k
  lastPress : (∀ call ∈ calls, call.2.presses k = false) → s'.lastPress k = s.lastPress k
  answered : (s'.answered k).toNat = (s.answered k).toNat + recordedFor (·.tapped.length) k s calls
  gaveUp : (s'.gaveUpOn k).toNat = (s.gaveUpOn k).toNat + recordedFor (·.gaveUp.length) k s calls
  barred : s.barred k = true → s'.barred k = true

theorem Added.gaveUp_length {r r' : InterruptionRecords} (h : Added r r') : r.gaveUp.length ≤ r'.gaveUp.length := by
  cases h <;> simp [InterruptionRecords.appendAnswered, InterruptionRecords.extendAnswered]

theorem passed_step {s : InterruptionPolicyStore N} {now : N} {call : Call N} (hClears : call.clears k = false) :
    Passed k s (step s now call) [(now, call)] := by
  by_cases hKey : call.key = some k
  · have hMoved : s.Moved k (step s now call) now (call.presses k) := moved_step hKey
    obtain ⟨hTaps, hLast, hAnswered, hGaveUp, hBarred, -⟩ := hMoved
    have hAdded : Added s.records (step s now call).records := added_step (closes_of_key hKey)
    have hTapped := hAdded.tapped
    have hLength := hAdded.gaveUp_length
    refine ⟨?_, ?_, ?_, ?_, hBarred⟩
    · rw [hTaps, List.countP_singleton]
      cases call.presses k <;> rfl
    · intro hQuiet
      rw [hLast, hQuiet _ List.mem_cons_self]
      rfl
    · simp only [recordedFor, if_pos hKey]
      omega
    · simp only [recordedFor, if_pos hKey]
      omega
  · have hMemo : get (step s now call).memo k = get s.memo k := memo_other hKey hClears
    have hPresses := presses_eq_false hKey
    refine ⟨?_, ?_, ?_, ?_, ?_⟩
    · simp [InterruptionPolicyStore.taps, hMemo, hPresses]
    · intro _
      rw [InterruptionPolicyStore.lastPress, hMemo]
      rfl
    · simp [InterruptionPolicyStore.answered, hMemo, recordedFor, hKey]
    · simp [gaveUpOn, hMemo, recordedFor, hKey]
    · simp [InterruptionPolicyStore.barred, hMemo]

theorem passed_run {s : InterruptionPolicyStore N} {calls : Calls N}
    (hClears : ∀ call ∈ calls, call.2.clears k = false) : Passed k s (runCalls s calls) calls := by
  induction calls generalizing s with
  | nil => exact ⟨rfl, fun _ => rfl, rfl, rfl, id⟩
  | cons call calls ih =>
    have hHead : Passed k s (step s call.1 call.2) [call] := passed_step (hClears _ List.mem_cons_self)
    have hTail : Passed k (step s call.1 call.2) (runCalls (step s call.1 call.2) calls) calls :=
      ih fun c hMem => hClears c (List.mem_cons_of_mem _ hMem)
    have hOne := hHead.answered
    have hOther := hHead.gaveUp
    simp only [recordedFor] at hOne hOther
    refine ⟨?_, ?_, ?_, ?_, fun h => hTail.barred (hHead.barred h)⟩
    · rw [runCalls_cons, hTail.taps, hHead.taps, List.countP_cons, List.countP_cons, List.countP_nil]
      omega
    · intro hQuiet
      rw [runCalls_cons, hTail.lastPress fun c hMem => hQuiet c (List.mem_cons_of_mem _ hMem)]
      exact hHead.lastPress fun c hMem => hQuiet c (by simp_all)
    · rw [runCalls_cons, hTail.answered, hOne, recordedFor]
      omega
    · rw [runCalls_cons, hTail.gaveUp, hOther, recordedFor]
      omega

end Runs

end Bajutsu.OnDevice
