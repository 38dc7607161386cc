import Bajutsu.Devices.FirstRun

/-!
# What a failed assignment says

The groups of a combination claim their sets one after the other, each the whole of a model and release that fits it. A
group fails when what the others left has no set for it. An assignment may still exist then: another group took more
than it needs. Where no device is eligible for two groups of one pool, none exists.
-/

namespace Bajutsu.Devices

open PyValue

section Complete

variable {lower repr : String → String}

/-- A device that a run may take. -/
structure EligibleFor (lower : String → String) (run : TargetRun) (d : DeviceFacts) : Prop where
  kind : matchesKind d run.kind = true
  fits : run.conditioned = true → FitsRun lower run d

/-- A set for a run: devices that it may take, of one model and release if it is conditioned. -/
structure SetFor (lower : String → String) (run : TargetRun) (devices chosen : List DeviceFacts) : Prop where
  nodup : chosen.Nodup
  eligible : ∀ d ∈ chosen, d ∈ devices ∧ EligibleFor lower run d
  uniform : run.conditioned = true → Uniform chosen

/-- A choice of sets: each is one for all that share its key, has a device for each of them, and shares none with another
on its pool. -/
structure IsAssignment (lower : String → String) (members : List Member) (pools : Pools)
    (choice : String × RunKey → List DeviceFacts) : Prop where
  sets : ∀ m ∈ members, (get pools m.1.pool).isSome = true →
    SetFor lower m.2 (poolOf pools m) (choice (m.1.pool, m.2.key)) ∧
      (peers members m).length ≤ (choice (m.1.pool, m.2.key)).length
  disjoint : ∀ m ∈ members, ∀ m' ∈ members, m.1.pool = m'.1.pool → m.2.key ≠ m'.2.key →
    (choice (m.1.pool, m.2.key)).Disjoint (choice (m'.1.pool, m'.2.key))

/-! ## A set is found where there is one -/

theorem length_le_of_eligible {p : DeviceFacts → Bool} {devices chosen : List DeviceFacts} (hNodup : chosen.Nodup)
    (h : ∀ d ∈ chosen, d ∈ devices ∧ p d = true) : chosen.length ≤ (devices.filter p).length := by
  apply List.Subperm.length_le
  apply List.subperm_of_subset hNodup
  intro d hd
  exact List.mem_filter.mpr (h d hd)

theorem eligibleSet_isSome {run : TargetRun} {devices chosen : List DeviceFacts} {demand : Nat}
    (h : SetFor lower run devices chosen) (hNe : 0 < demand) (hDemand : demand ≤ chosen.length) :
    (eligibleSet lower run devices demand).isSome = true := by
  cases hRun : run.conditioned with
  | false =>
    have hEnough : demand ≤ (ofKind devices run.kind).length :=
      hDemand.trans (length_le_of_eligible h.nodup fun d hd => ⟨(h.eligible d hd).1, (h.eligible d hd).2.kind⟩)
    simp only [eligibleSet, hRun, Bool.not_false, if_true, if_pos hEnough, Option.isSome_some]
  | true =>
    obtain ⟨model, version, hUniform⟩ := h.uniform hRun
    obtain ⟨d, hd⟩ := List.exists_mem_of_length_pos (hNe.trans_le hDemand)
    simp only [eligibleSet, hRun, Bool.not_true, Bool.false_eq_true, if_false]
    have hKept : ∀ d ∈ chosen, d ∈ devices.filter fun d =>
        matchesKind d run.kind && matchesFamily lower d run.family && matchesModel d run.model &&
          inRun d run.spec run.major := by
      intro d hd
      obtain ⟨hMem, hEligible⟩ := h.eligible d hd
      obtain ⟨hKind, hFamily, hModel, hRange⟩ := hEligible.fits hRun
      exact List.mem_filter.mpr ⟨hMem, by rw [hKind, hFamily, hModel, hRange]; rfl⟩
    generalize (devices.filter fun d => matchesKind d run.kind && matchesFamily lower d run.family &&
      matchesModel d run.model && inRun d run.spec run.major) = kept at hKept
    have hGroup := (mem_groupBy_iff DeviceFacts.model kept model _).mpr
      ⟨List.mem_map.mpr ⟨d, hKept d hd, (hUniform d hd).1⟩, rfl⟩
    rw [List.findSome?_isSome_iff]
    refine ⟨_, hGroup, ?_⟩
    have hOfModel : ∀ d ∈ chosen, d ∈ kept.filter fun x => x.model = model := by
      intro d hd
      exact List.mem_filter.mpr ⟨hKept d hd, decide_eq_true (hUniform d hd).1⟩
    generalize (kept.filter fun x => x.model = model) = group at hOfModel
    have hRelease := (mem_groupBy_iff DeviceFacts.version group version _).mpr
      ⟨List.mem_map.mpr ⟨d, hOfModel d hd, (hUniform d hd).2⟩, rfl⟩
    have hEnough : demand ≤ (group.filter fun x => x.version = version).length :=
      hDemand.trans (length_le_of_eligible h.nodup fun d hd => ⟨hOfModel d hd, decide_eq_true (hUniform d hd).2⟩)
    have hFitting : version ∈
        ((groupBy DeviceFacts.version group).filter fun release => demand ≤ release.2.length).map Prod.fst :=
      List.mem_map.mpr ⟨_, List.mem_filter.mpr ⟨hRelease, decide_eq_true hEnough⟩, rfl⟩
    dsimp only
    split
    · rename_i hNone
      rw [List.max?_eq_none_iff] at hNone
      rw [hNone] at hFitting
      cases hFitting
    · rename_i newest hNewest
      obtain ⟨⟨version, devices⟩, hMem, rfl⟩ := List.mem_map.mp (List.max?_mem hNewest)
      rw [get_of_mem (keys_groupBy _ _).1 (List.mem_filter.mp hMem).1]
      rfl

/-! ## The group that fails -/

/-- A group at which the claiming stops, with what was claimed before. -/
structure StuckAt (lower repr : String → String) (pools : Pools) (order before : List (List Member)) (first : Member)
    (rest : List Member) (claims : Claims) : Prop where
  reached : ∃ after, order = before ++ (first :: rest) :: after
  claimed : claimAll lower repr pools {} before = .ok claims
  none : eligibleSet lower first.2 (freeDevices pools claims first.1.pool) (first :: rest).length = none

theorem claimStep_error {pools : Pools} {claims : Claims} {group : List Member} {reason : String}
    (h : claimStep lower repr pools claims group = .error reason) :
    ∃ first rest, group = first :: rest ∧
      eligibleSet lower first.2 (freeDevices pools claims first.1.pool) group.length = none := by
  cases group with
  | nil => cases h
  | cons first rest =>
    refine ⟨first, rest, rfl, ?_⟩
    simp only [claimStep] at h
    split at h
    · cases h
    · split at h
      · cases h
      · assumption

theorem claimAll_error {pools : Pools} {claims : Claims} {order : List (List Member)} {reason : String}
    (h : claimAll lower repr pools claims order = .error reason) :
    ∃ before group after mid, order = before ++ group :: after ∧ claimAll lower repr pools claims before = .ok mid ∧
      claimStep lower repr pools mid group = .error reason := by
  induction order generalizing claims with
  | nil => cases h
  | cons group order ih =>
    rw [claimAll] at h
    cases hStep : claimStep lower repr pools claims group with
    | error other =>
      rw [hStep] at h
      obtain rfl := Except.error.inj h
      exact ⟨[], group, order, claims, rfl, rfl, hStep⟩
    | ok next =>
      rw [hStep] at h
      obtain ⟨before, stuck, after, mid, rfl, hBefore, hStuck⟩ := ih h
      refine ⟨group :: before, stuck, after, mid, rfl, ?_, hStuck⟩
      rw [claimAll, hStep]
      exact hBefore

theorem assign_failed {members : List Member} {pools : Pools} (h : (assign lower repr members pools).outcome = .failed) :
    ∃ before first rest claims, StuckAt lower repr pools (orderOf members pools) before first rest claims := by
  rw [assign] at h
  split at h
  · cases h
  · rename_i reason hAll
    obtain ⟨before, group, after, claims, hOrder, hBefore, hStuck⟩ := claimAll_error hAll
    obtain ⟨first, rest, rfl, hNone⟩ := claimStep_error hStuck
    exact ⟨before, first, rest, claims, ⟨after, hOrder⟩, hBefore, hNone⟩

/-- What is claimed are eligible devices of the groups that have claimed. -/
theorem claimed_eligible {pools : Pools} {claims final : Claims} {order : List (List Member)}
    (h : claimAll lower repr pools claims order = .ok final) {pool udid : String} (hClaimed : udid ∈ final.of pool) :
    udid ∈ claims.of pool ∨ ∃ group ∈ order, ∃ m ∈ group, m.1.pool = pool ∧
      ∃ d ∈ poolOf pools m, EligibleFor lower m.2 d ∧ d.udid = udid := by
  induction order generalizing claims with
  | nil =>
    cases h
    exact .inl hClaimed
  | cons group order ih =>
    rw [claimAll] at h
    cases hStep : claimStep lower repr pools claims group with
    | error reason =>
      rw [hStep] at h
      cases h
    | ok next =>
      rw [hStep] at h
      rcases ih h with hNext | ⟨other, hOther, hRest⟩
      · rcases claimStep_cases hStep with ⟨-, rfl⟩ | ⟨first, rest, rfl, ⟨-, -, rfl⟩ | ⟨-, chosen, hChosen, rfl⟩⟩
        · exact .inl hNext
        · exact .inl hNext
        · rw [Claims.of_record] at hNext
          split at hNext
          · rename_i hPool
            rcases List.mem_append.mp hNext with hOld | hNew
            · exact .inl (hPool ▸ hOld)
            · obtain ⟨d, hd, rfl⟩ := List.mem_map.mp hNew
              refine .inr ⟨_, List.mem_cons_self, first, List.mem_cons_self, hPool.symm, d, ?_⟩
              cases hRun : first.2.conditioned with
              | false =>
                rw [(eligibleSet_unconditioned hRun hChosen).1] at hd
                obtain ⟨hFree, hKind⟩ := List.mem_filter.mp hd
                exact ⟨(List.mem_filter.mp hFree).1, ⟨hKind, fun h => by rw [hRun] at h; cases h⟩, rfl⟩
              | true =>
                obtain ⟨-, hSub, -, hFits⟩ := eligibleSet_conditioned hRun hChosen
                exact ⟨(List.mem_filter.mp (hSub.subset hd)).1, ⟨(hFits d hd).1, fun _ => hFits d hd⟩, rfl⟩
          · exact .inl hNext
      · exact .inr ⟨other, List.mem_cons_of_mem group hOther, hRest⟩

/-! ## Completeness -/

/-- No device of a pool is eligible for two keys. -/
def NoOverlap (lower : String → String) (members : List Member) (pools : Pools) : Prop :=
  ∀ m ∈ members, ∀ m' ∈ members, m.1.pool = m'.1.pool → m.2.key ≠ m'.2.key →
    ∀ d ∈ poolOf pools m, ∀ d' ∈ poolOf pools m, EligibleFor lower m.2 d → EligibleFor lower m'.2 d' → d.udid ≠ d'.udid

structure Complete (lower repr : String → String) (members : List Member) (pools : Pools) : Prop where
  /-- A group for which the groups before it left no set. -/
  stuck : (assign lower repr members pools).outcome = .failed →
    ∃ before first rest claims, StuckAt lower repr pools (orderOf members pools) before first rest claims ∧
      ∀ chosen, SetFor lower first.2 (freeDevices pools claims first.1.pool) chosen →
        chosen.length < (first :: rest).length
  unassignable : NoOverlap lower members pools → (assign lower repr members pools).outcome = .failed →
    ¬ ∃ choice, IsAssignment lower members pools choice

theorem no_set_of_stuck {pools : Pools} {order before : List (List Member)} {first : Member} {rest : List Member}
    {claims : Claims} (h : StuckAt lower repr pools order before first rest claims) {chosen : List DeviceFacts}
    (hSet : SetFor lower first.2 (freeDevices pools claims first.1.pool) chosen) :
    chosen.length < (first :: rest).length := by
  by_contra hEnough
  have hPos : 0 < (first :: rest).length := by rw [List.length_cons]; omega
  have hSome := eligibleSet_isSome hSet hPos (by omega)
  rw [h.none] at hSome
  cases hSome

theorem assign_complete (lower repr : String → String) (members : List Member) (pools : Pools) :
    Complete lower repr members pools where
  stuck := by
    intro hFailed
    obtain ⟨before, first, rest, claims, hStuck⟩ := assign_failed hFailed
    exact ⟨before, first, rest, claims, hStuck, fun chosen hSet => no_set_of_stuck hStuck hSet⟩
  unassignable := by
    rintro hApart hFailed ⟨choice, hChoice⟩
    obtain ⟨before, first, rest, claims, hStuck⟩ := assign_failed hFailed
    obtain ⟨after, hOrder⟩ := hStuck.reached
    have hGroup : first :: rest ∈ orderOf members pools := by
      rw [hOrder]
      exact List.mem_append_right before List.mem_cons_self
    obtain ⟨hMember, hPool, hPeers⟩ := mem_members_of_group hGroup List.mem_cons_self
    obtain ⟨hSet, hDemand⟩ := hChoice.sets first hMember hPool
    have hFree : SetFor lower first.2 (freeDevices pools claims first.1.pool) (choice (first.1.pool, first.2.key)) := by
      refine ⟨hSet.nodup, ?_, hSet.uniform⟩
      intro d hd
      obtain ⟨hIn, hEligible⟩ := hSet.eligible d hd
      refine ⟨List.mem_filter.mpr ⟨hIn, decide_eq_true ?_⟩, hEligible⟩
      intro hClaimed
      rcases claimed_eligible hStuck.claimed hClaimed with hStart | ⟨group, hMem, m, hm, hSame, d', hIn', hEligible', hUdid⟩
      · cases hStart
      · have hEarlier : group ∈ orderOf members pools := by
          rw [hOrder]
          exact List.mem_append_left _ hMem
        obtain ⟨hMember', -, hPeers'⟩ := mem_members_of_group hEarlier hm
        have hKey : first.2.key ≠ m.2.key := by
          intro hKey
          have hSameGroup : group = first :: rest := by
            rw [hPeers, hPeers', peers, peers, hSame, hKey]
          have hNodup := nodup_orderOf members pools
          rw [hOrder, hSameGroup.symm] at hNodup
          exact (List.nodup_append.mp hNodup).2.2 group hMem group List.mem_cons_self rfl
        have hSamePool : poolOf pools m = poolOf pools first := by rw [poolOf, poolOf, hSame]
        rw [hSamePool] at hIn'
        exact hApart first hMember m hMember' hSame.symm hKey d hIn d' hIn' hEligible hEligible' hUdid.symm
    have hShort := no_set_of_stuck hStuck hFree
    rw [← hPeers] at hDemand
    omega

end Complete

/-! ## Two devices for two -/

def alike : List DeviceFacts :=
  [simulator "A" "iPhone 16" "18.0" ⟨⟨18, 0, 0⟩, rfl⟩, simulator "B" "iPhone 16" "18.0" ⟨⟨18, 0, 0⟩, rfl⟩]

def alikePool : Pools := [("xcuitest", alike)]

def memberOn (run : TargetRun) : Member := (⟨run.target, [], "xcuitest", [run]⟩, run)

/-- One target asks for the model, the other only lists the kind. -/
def twoTargets : List Member :=
  [memberOn (simulatorRun "named" (some "iPhone 16") true),
    memberOn { simulatorRun "listed" none true with coordinates := [("kind", "simulator")] }]

def oneEach (key : String × RunKey) : List DeviceFacts :=
  if key.2 = (simulatorRun "named" (some "iPhone 16") true).key then alike.take 1 else alike.drop 1

theorem setFor_singleton {run : TargetRun} {devices : List DeviceFacts} {d : DeviceFacts} (hMem : d ∈ devices)
    (hFits : FitsRun id run d) : SetFor id run devices [d] where
  nodup := List.nodup_singleton d
  eligible := by
    intro d' hd'
    obtain rfl := List.mem_singleton.mp hd'
    exact ⟨hMem, hFits.1, fun _ => hFits⟩
  uniform := by
    intro _
    refine ⟨d.model, d.version, ?_⟩
    intro d' hd'
    obtain rfl := List.mem_singleton.mp hd'
    exact ⟨rfl, rfl⟩

theorem oneEach_isAssignment : IsAssignment id twoTargets alikePool oneEach where
  sets := by
    intro m hm _
    simp only [twoTargets, List.mem_cons, List.not_mem_nil, or_false] at hm
    rcases hm with rfl | rfl
    · exact ⟨setFor_singleton List.mem_cons_self ⟨rfl, rfl, rfl, rfl⟩, by decide⟩
    · exact ⟨setFor_singleton (List.mem_cons_of_mem _ List.mem_cons_self) ⟨rfl, rfl, rfl, rfl⟩, by decide⟩
  disjoint := by
    intro m hm m' hm' _ hKeys
    have hApart : (alike.take 1).Disjoint (alike.drop 1) :=
      List.disjoint_take_drop (List.Nodup.of_map DeviceFacts.udid (by decide)) (by decide)
    simp only [twoTargets, List.mem_cons, List.not_mem_nil, or_false] at hm hm'
    rcases hm with rfl | rfl <;> rcases hm' with rfl | rfl
    · exact absurd rfl hKeys
    · exact hApart
    · exact hApart.symm
    · exact absurd rfl hKeys

/-- The first target claims both devices, so none is left for the second. -/
theorem both_claimed :
    ¬ ∀ (lower repr : String → String) (members : List Member) (pools : Pools),
      (∀ m ∈ members, m.2.outcome = .run) → (assign lower repr members pools).outcome = .failed →
      ¬ ∃ choice, IsAssignment lower members pools choice := by
  intro hAll
  exact hAll id id twoTargets alikePool (by decide) rfl ⟨oneEach, oneEach_isAssignment⟩

end Bajutsu.Devices
