import Bajutsu.Devices.RunPlan

/-!
# Which devices a combination takes

The claiming loop as a transition system: a group that claims removes its set from the pool, so later
groups draw on what is left. From the step lemma follow the bounds and the disjointness of the recorded
sets; uniform sets need one condition more, on the group that mixes both kinds of run.
-/

namespace Bajutsu.Devices

open PyValue

section Assignment

variable {lower repr : String → String}

/-! ## The eligible set -/

/-- All devices are of one model and one release. -/
def Uniform (devices : List DeviceFacts) : Prop :=
  ∃ model version, ∀ d ∈ devices, d.model = model ∧ d.version = version

/-- What a run asks of each device it takes. -/
structure Fits (lower : String → String) (run : TargetRun) (d : DeviceFacts) : Prop where
  kind : matchesKind d run.kind = true
  family : matchesFamily lower d run.family = true
  model : matchesModel d run.model = true
  range : ∀ spec, run.spec = some spec → spec.contains d.version = true
  major : ∀ major, run.major = some major → d.version.major = major

/-- How forming a run relates its fields: a range is the parse of its text, a major version comes with
a range, and off the web only a conditioned run names a model, a range or a family. -/
structure TargetRun.Formed (run : TargetRun) : Prop where
  spec : ∀ s, run.spec = some s → VersionSpec.parse s.text = .ok s
  major : run.spec = none → run.major = none
  unconditioned : run.conditioned = false → run.platform ≠ .web →
    run.model = none ∧ run.spec = none ∧ run.family = none

theorem inRun_iff {run : TargetRun} (hFormed : run.Formed) (d : DeviceFacts) :
    inRun d run.spec run.major = true ↔
      (∀ spec, run.spec = some spec → spec.contains d.version = true) ∧
        ∀ major, run.major = some major → d.version.major = major := by
  cases hSpec : run.spec with
  | none => simp [inRun, hFormed.major hSpec]
  | some spec => cases hMajor : run.major <;> simp [inRun]

theorem eligibleSet_unconditioned {run : TargetRun} {devices chosen : List DeviceFacts} {demand : Nat}
    (hRun : run.conditioned = false) (h : eligibleSet lower run devices demand = some chosen) :
    chosen = ofKind devices run.kind ∧ demand ≤ chosen.length := by
  simp only [eligibleSet, hRun, Bool.not_false, if_true] at h
  split at h
  · rename_i hDemand
    cases h
    exact ⟨rfl, hDemand⟩
  · cases h

/-- A conditioned run takes devices that meet its conditions, all of one model and release. -/
theorem eligibleSet_conditioned {run : TargetRun} {devices chosen : List DeviceFacts} {demand : Nat}
    (hRun : run.conditioned = true) (h : eligibleSet lower run devices demand = some chosen) :
    demand ≤ chosen.length ∧ chosen.Sublist devices ∧ Uniform chosen ∧
      ∀ d ∈ chosen, matchesKind d run.kind = true ∧ matchesFamily lower d run.family = true ∧
        matchesModel d run.model = true ∧ inRun d run.spec run.major = true := by
  simp only [eligibleSet, hRun, Bool.not_true, Bool.false_eq_true, if_false] at h
  obtain ⟨⟨model, ofModel⟩, hModel, hRelease⟩ := List.exists_of_findSome?_eq_some h
  obtain ⟨-, rfl⟩ := (mem_groupBy_iff _ _ _ _).mp hModel
  simp only at hRelease
  split at hRelease
  · cases hRelease
  · rename_i newest hNewest
    obtain ⟨⟨version, ofRelease⟩, hFitting, rfl⟩ := List.mem_map.mp (List.max?_mem hNewest)
    obtain ⟨hGroup, hDemand⟩ := List.mem_filter.mp hFitting
    rw [get_of_mem (keys_groupBy _ _).1 hGroup] at hRelease
    cases hRelease
    obtain ⟨-, rfl⟩ := (mem_groupBy_iff _ _ _ _).mp hGroup
    refine ⟨by simpa using hDemand, ?_, ⟨model, version, fun d hd => ?_⟩, fun d hd => ?_⟩
    · exact List.filter_sublist.trans (List.filter_sublist.trans List.filter_sublist)
    · simp only [List.mem_filter, decide_eq_true_eq] at hd
      exact ⟨hd.1.2, hd.2⟩
    · simp only [List.mem_filter, Bool.and_eq_true] at hd
      exact ⟨hd.1.1.2.1.1.1, hd.1.1.2.1.1.2, hd.1.1.2.1.2, hd.1.1.2.2⟩

/-! ## One claiming step -/

theorem Claims.of_record (claims : Claims) (members : List Member) (pool : String)
    (udids : List String) (other : String) :
    (claims.record members pool udids).of other =
      if other = pool then claims.of pool ++ udids else claims.of other := by
  rw [Claims.of, Claims.record]
  split
  · rename_i hPool
    rw [hPool, get_set_self, Option.getD_some]
  · rename_i hPool
    rw [get_set_ne _ _ hPool]
    rfl

theorem Claims.devices_record (claims : Claims) (members : List Member) (pool : String)
    (udids : List String) (name : String) :
    get (claims.record members pool udids).devices name =
      if name ∈ members.map (fun m => m.1.first) then some udids else get claims.devices name := by
  have hFold : ∀ (devices : List (String × List String)),
      get (members.foldl (fun devices m => set devices m.1.first udids) devices) name =
        if name ∈ members.map (fun m => m.1.first) then some udids else get devices name := by
    induction members with
    | nil => simp
    | cons m members ih =>
      intro devices
      rw [List.foldl_cons, ih, List.map_cons]
      by_cases hName : name = m.1.first
      · simp [hName]
      · rw [get_set_ne _ _ hName]
        simp only [List.mem_cons, hName, false_or]
  exact hFold claims.devices

/-- A step leaves the claims alone or claims the eligible set of what is free. -/
theorem claimStep_cases {pools : Pools} {claims next : Claims} {group : List Member}
    (h : claimStep lower repr pools claims group = .ok next) :
    (group = [] ∧ next = claims) ∨ ∃ first rest, group = first :: rest ∧
      ((first.2.conditioned = false ∧ claims.of first.1.pool = [] ∧ next = claims) ∨
        ((first.2.conditioned = true ∨ claims.of first.1.pool ≠ []) ∧ ∃ chosen,
          eligibleSet lower first.2 (freeDevices pools claims first.1.pool) group.length =
            some chosen ∧
          next = claims.record group first.1.pool (chosen.map DeviceFacts.udid))) := by
  cases group with
  | nil =>
    cases h
    exact .inl ⟨rfl, rfl⟩
  | cons first rest =>
    refine .inr ⟨first, rest, rfl, ?_⟩
    simp only [claimStep] at h
    split at h
    · rename_i hSkip
      cases h
      simp only [Bool.and_eq_true, Bool.not_eq_true', decide_eq_true_eq] at hSkip
      exact .inl ⟨hSkip.1, hSkip.2, rfl⟩
    · rename_i hSkip
      simp only [Bool.and_eq_true, Bool.not_eq_true', decide_eq_true_eq, not_and_or,
        Bool.not_eq_false] at hSkip
      split at h
      · rename_i chosen hChosen
        cases h
        exact .inr ⟨hSkip, chosen, hChosen, rfl⟩
      · cases h

theorem claimStep_mono {pools : Pools} {claims next : Claims} {group : List Member}
    (h : claimStep lower repr pools claims group = .ok next) (pool : String) :
    claims.of pool ⊆ next.of pool := by
  rcases claimStep_cases h with ⟨-, rfl⟩ | ⟨first, rest, -, ⟨-, -, rfl⟩ | ⟨-, chosen, -, rfl⟩⟩
  · exact fun _ hu => hu
  · exact fun _ hu => hu
  · intro u hu
    rw [Claims.of_record]
    split
    · rename_i hPool
      exact List.mem_append_left _ (hPool ▸ hu)
    · exact hu

theorem claimStep_frame {pools : Pools} {claims next : Claims} {group : List Member}
    (h : claimStep lower repr pools claims group = .ok next) {name : String}
    (hName : name ∉ group.map fun m => m.1.first) :
    get next.devices name = get claims.devices name := by
  rcases claimStep_cases h with ⟨-, rfl⟩ | ⟨first, rest, -, ⟨-, -, rfl⟩ | ⟨-, chosen, -, rfl⟩⟩
  · rfl
  · rfl
  · rw [Claims.devices_record, if_neg hName]

/-! ## A whole claiming run -/

theorem claimAll_append {pools : Pools} {claims final : Claims} {before after : List (List Member)} :
    claimAll lower repr pools claims (before ++ after) = .ok final ↔
      ∃ mid, claimAll lower repr pools claims before = .ok mid ∧
        claimAll lower repr pools mid after = .ok final := by
  induction before generalizing claims with
  | nil => simp [claimAll]
  | cons group before ih =>
    rw [List.cons_append, claimAll, claimAll]
    cases hStep : claimStep lower repr pools claims group with
    | error reason => simp
    | ok next => exact ih

theorem claimAll_mono {pools : Pools} {claims final : Claims} {groups : List (List Member)}
    (h : claimAll lower repr pools claims groups = .ok final) (pool : String) :
    claims.of pool ⊆ final.of pool := by
  induction groups generalizing claims with
  | nil =>
    cases h
    exact fun _ hu => hu
  | cons group groups ih =>
    rw [claimAll] at h
    cases hStep : claimStep lower repr pools claims group with
    | error reason => simp [hStep] at h
    | ok next =>
      simp only [hStep] at h
      exact fun u hu => ih h (claimStep_mono hStep pool hu)

theorem claimAll_frame {pools : Pools} {claims final : Claims} {groups : List (List Member)}
    (h : claimAll lower repr pools claims groups = .ok final) {name : String}
    (hName : ∀ group ∈ groups, name ∉ group.map fun m => m.1.first) :
    get final.devices name = get claims.devices name := by
  induction groups generalizing claims with
  | nil =>
    cases h
    rfl
  | cons group groups ih =>
    obtain ⟨hGroup, hName⟩ := List.forall_mem_cons.mp hName
    rw [claimAll] at h
    cases hStep : claimStep lower repr pools claims group with
    | error reason => simp [hStep] at h
    | ok next =>
      simp only [hStep] at h
      rw [ih h hName, claimStep_frame hStep hGroup]

/-- The state a group is claimed in, and the one it leaves. -/
structure ClaimedAt (lower repr : String → String) (pools : Pools) (order : List (List Member))
    (group : List Member) (claims next : Claims) : Prop where
  reached : ∃ before after, order = before ++ group :: after ∧
    claimAll lower repr pools {} before = .ok claims
  step : claimStep lower repr pools claims group = .ok next

theorem exists_claimedAt {pools : Pools} {order : List (List Member)} {final : Claims}
    (h : claimAll lower repr pools {} order = .ok final) {group : List Member} (hGroup : group ∈ order) :
    ∃ claims next, ClaimedAt lower repr pools order group claims next := by
  obtain ⟨before, after, rfl⟩ := List.append_of_mem hGroup
  obtain ⟨claims, hBefore, hRest⟩ := claimAll_append.mp h
  rw [claimAll] at hRest
  cases hStep : claimStep lower repr pools claims group with
  | error reason => simp [hStep] at hRest
  | ok next => exact ⟨claims, next, ⟨before, after, rfl, hBefore⟩, hStep⟩

theorem claimedAt_pair {pools : Pools} {order before mid after : List (List Member)}
    {final : Claims} {g h : List Member} (hOrder : order = before ++ g :: (mid ++ h :: after))
    (hAll : claimAll lower repr pools {} order = .ok final) :
    ∃ c n c' n', ClaimedAt lower repr pools order g c n ∧ ClaimedAt lower repr pools order h c' n' ∧
      ∀ pool, n.of pool ⊆ c'.of pool := by
  rw [hOrder] at hAll
  obtain ⟨c, hBefore, hRest⟩ := claimAll_append.mp hAll
  rw [claimAll] at hRest
  cases hStep : claimStep lower repr pools c g with
  | error reason => simp [hStep] at hRest
  | ok n =>
    simp only [hStep] at hRest
    obtain ⟨c', hMid, hRest⟩ := claimAll_append.mp hRest
    rw [claimAll] at hRest
    cases hStep' : claimStep lower repr pools c' h with
    | error reason => simp [hStep'] at hRest
    | ok n' =>
      have hReached : claimAll lower repr pools {} (before ++ g :: mid) = .ok c' := by
        refine claimAll_append.mpr ⟨c, hBefore, ?_⟩
        rw [claimAll, hStep]
        exact hMid
      exact ⟨c, n, c', n', ⟨⟨before, _, hOrder, hBefore⟩, hStep⟩,
        ⟨⟨before ++ g :: mid, after, by rw [hOrder]; simp, hReached⟩, hStep'⟩, claimAll_mono hMid⟩

/-! ## The groups of a combination -/

/-- Groups that share no target: a target in two of them makes them one. -/
def Separate (order : List (List Member)) : Prop :=
  order.Nodup ∧ ∀ g ∈ order, ∀ h ∈ order, ∀ m ∈ g, ∀ m' ∈ h, m.1.first = m'.1.first → g = h

/-- What the final claims record for a group: nothing, or the set its step took, for all alike. -/
theorem recorded_cases {pools : Pools} {order : List (List Member)} {final claims next : Claims}
    {group : List Member} (hSeparate : Separate order)
    (hAll : claimAll lower repr pools {} order = .ok final)
    (hAt : ClaimedAt lower repr pools order group claims next) :
    ((∀ m ∈ group, get final.devices m.1.first = none) ∧
      ∀ first ∈ group.head?, claims.of first.1.pool = []) ∨
    ∃ first rest chosen, group = first :: rest ∧
      (first.2.conditioned = true ∨ claims.of first.1.pool ≠ []) ∧
      eligibleSet lower first.2 (freeDevices pools claims first.1.pool) group.length = some chosen ∧
      (∀ m ∈ group, get final.devices m.1.first = some (chosen.map DeviceFacts.udid)) ∧
      ∀ d ∈ chosen, d.udid ∈ next.of first.1.pool := by
  obtain ⟨⟨before, after, rfl, hBefore⟩, hStep⟩ := hAt
  obtain ⟨hNodup, hSame⟩ := hSeparate
  have hOthers : ∀ h ∈ before ++ after, ∀ m ∈ group, m.1.first ∉ h.map fun m' => m'.1.first := by
    intro h hMem m hm hName
    obtain ⟨m', hm', hEq⟩ := List.mem_map.mp hName
    have hGroup : h = group := hSame h (by simp at hMem ⊢; tauto) group (by simp) m' hm' m hm hEq
    have hNot := (List.nodup_middle.mp hNodup)
    exact (List.nodup_cons.mp hNot).1 (hGroup ▸ hMem)
  obtain ⟨mid, hMid, hRest⟩ := claimAll_append.mp hAll
  rw [hBefore] at hMid
  cases hMid
  rw [claimAll, hStep] at hRest
  have hEmpty : ∀ m ∈ group, get claims.devices m.1.first = none := by
    intro m hm
    rw [claimAll_frame hBefore fun h hh => hOthers h (List.mem_append_left _ hh) m hm]
    rfl
  have hKept : ∀ m ∈ group, get final.devices m.1.first = get next.devices m.1.first := by
    intro m hm
    exact claimAll_frame hRest fun h hh => hOthers h (List.mem_append_right _ hh) m hm
  rcases claimStep_cases hStep with
    ⟨rfl, -⟩ | ⟨first, rest, hGroup, ⟨-, hClaims, rfl⟩ | ⟨hClaims, chosen, hChosen, rfl⟩⟩
  · exact .inl (by simp)
  · refine .inl ⟨fun m hm => (hKept m hm).trans (hEmpty m hm), fun m hm => ?_⟩
    rw [hGroup, List.head?_cons, Option.mem_def, Option.some.injEq] at hm
    rwa [← hm]
  · refine .inr ⟨first, rest, chosen, hGroup, hClaims, hChosen, fun m hm => ?_, fun d hd => ?_⟩
    · rw [hKept m hm, Claims.devices_record, if_pos (List.mem_map_of_mem hm)]
    · rw [Claims.of_record, if_pos rfl]
      exact List.mem_append_right _ (List.mem_map_of_mem hd)

/-- The groups of a combination's members, in claiming order. -/
def orderOf (members : List Member) (pools : Pools) : List (List Member) :=
  claimOrder ((groupsOf members pools).map Prod.snd)

/-- The members that draw on the same set as one of them. -/
def peers (members : List Member) (m : Member) : List Member :=
  members.filter fun m' => (m'.1.pool, m'.2.key) = (m.1.pool, m.2.key)

theorem mem_claimOrder {groups : List (List Member)} {group : List Member} :
    group ∈ claimOrder groups ↔ group ∈ groups := by
  simp only [claimOrder, List.mem_append, List.mem_filter]
  cases conditionedFirst group <;> simp

theorem mem_orderOf {members : List Member} {pools : Pools} {group : List Member} :
    group ∈ orderOf members pools ↔
      ∃ m ∈ members, (get pools m.1.pool).isSome ∧ group = peers members m := by
  have hPeers (m : Member) (hm : (get pools m.1.pool).isSome) :
      ((members.filter fun m => (get pools m.1.pool).isSome).filter fun m' =>
        (m'.1.pool, m'.2.key) = (m.1.pool, m.2.key)) = peers members m := by
    rw [List.filter_filter, peers]
    refine List.filter_congr fun m' _ => ?_
    by_cases hKey : (m'.1.pool, m'.2.key) = (m.1.pool, m.2.key)
    · simp only [hKey, decide_true, Bool.true_and]
      rw [(Prod.mk.inj hKey).1, hm]
    · simp [hKey]
  rw [orderOf, mem_claimOrder, List.mem_map]
  constructor
  · rintro ⟨⟨k, g⟩, hMem, rfl⟩
    obtain ⟨hKey, rfl⟩ := (mem_groupBy_iff _ _ _ _).mp hMem
    obtain ⟨m, hm, rfl⟩ := List.mem_map.mp hKey
    obtain ⟨hm, hPool⟩ := List.mem_filter.mp hm
    exact ⟨m, hm, hPool, hPeers m hPool⟩
  · rintro ⟨m, hm, hPool, rfl⟩
    refine ⟨((m.1.pool, m.2.key), _), (mem_groupBy_iff _ _ _ _).mpr ⟨?_, rfl⟩, hPeers m hPool⟩
    exact List.mem_map.mpr ⟨m, List.mem_filter.mpr ⟨hm, hPool⟩, rfl⟩

theorem self_mem_peers {members : List Member} {m : Member} (hm : m ∈ members) :
    m ∈ peers members m := List.mem_filter.mpr ⟨hm, by simp⟩

theorem mem_peers_iff {members : List Member} {m m' : Member} :
    m' ∈ peers members m ↔ m' ∈ members ∧ m'.1.pool = m.1.pool ∧ m'.2.key = m.2.key := by
  simp [peers]

theorem nodup_orderOf (members : List Member) (pools : Pools) : (orderOf members pools).Nodup := by
  have hPerm : (orderOf members pools).Perm ((groupsOf members pools).map Prod.snd) :=
    List.filter_append_perm _ _
  rw [hPerm.nodup_iff]
  refine List.Nodup.map_on ?_ (List.Nodup.of_map Prod.fst (keys_groupBy _ _).1)
  rintro ⟨k, g⟩ hk ⟨k', g'⟩ hk' rfl
  obtain ⟨hMem, hGroup⟩ := (mem_groupBy_iff _ _ _ _).mp hk
  obtain ⟨-, hGroup'⟩ := (mem_groupBy_iff _ _ _ _).mp hk'
  obtain ⟨m, hm, rfl⟩ := List.mem_map.mp hMem
  simp only at hGroup'
  have hOwn : m ∈ g := hGroup ▸ List.mem_filter.mpr ⟨hm, by simp⟩
  rw [hGroup'] at hOwn
  rw [of_decide_eq_true (List.mem_filter.mp hOwn).2]

theorem separate_orderOf {members : List Member} (hNames : (members.map fun m => m.1.first).Nodup)
    (pools : Pools) : Separate (orderOf members pools) := by
  have hInj : ∀ m ∈ members, ∀ m' ∈ members, m.1.first = m'.1.first → m = m' := fun m hm m' hm' =>
    List.inj_on_of_nodup_map hNames hm hm'
  refine ⟨nodup_orderOf members pools, ?_⟩
  intro g hg h hh m hm m' hm' hName
  obtain ⟨a, -, -, rfl⟩ := mem_orderOf.mp hg
  obtain ⟨b, -, -, rfl⟩ := mem_orderOf.mp hh
  obtain ⟨hMem, hPool, hKey⟩ := mem_peers_iff.mp hm
  obtain ⟨hMem', hPool', hKey'⟩ := mem_peers_iff.mp hm'
  obtain rfl := hInj m hMem m' hMem' hName
  rw [peers, peers, ← hPool, ← hKey, ← hPool', ← hKey']

/-! ## Sound assignments -/

/-- The devices of a participant's pool. -/
def poolOf (pools : Pools) (m : Member) : List DeviceFacts := (get pools m.1.pool).getD []

/-- What a recorded set owes the participant it is recorded for. -/
structure SoundFor (lower : String → String) (members : List Member) (pools : Pools)
    (devices : List (String × List String)) (m : Member) (udids : List String) : Prop where
  fits : ∀ u ∈ udids, ∃ d ∈ poolOf pools m, d.udid = u ∧ Fits lower m.2 d
  uniform : m.2.conditioned = true → ∃ model version, ∀ u ∈ udids,
    ∃ d ∈ poolOf pools m, d.udid = u ∧ d.model = model ∧ d.version = version
  enough : udids.Nodup ∧ (peers members m).length ≤ udids.length
  shared : ∀ m' ∈ peers members m, get devices m'.1.first = some udids
  disjoint : ∀ m' ∈ members, m'.1.pool = m.1.pool → m'.2.key ≠ m.2.key →
    ∀ others, get devices m'.1.first = some others → udids.Disjoint others

def Sound (lower : String → String) (members : List Member) (pools : Pools)
    (devices : List (String × List String)) : Prop :=
  ∀ m ∈ members, ∀ udids, get devices m.1.first = some udids →
    SoundFor lower members pools devices m udids

/-- A group claimed for an unconditioned first run holds no conditioned one, or nothing on its pool is
claimed yet, or what is free there of its kind is uniform anyway. -/
def UniformStep (pools : Pools) (claims : Claims) (group : List Member) : Prop :=
  ∀ m ∈ group, m.2.conditioned = true → conditionedFirst group = true ∨ claims.of m.1.pool = [] ∨
    Uniform (ofKind (freeDevices pools claims m.1.pool) m.2.kind)

/-- Every group meets the condition in the state it is claimed in. -/
def StepsUniform (lower repr : String → String) (members : List Member) (pools : Pools) : Prop :=
  ∀ group claims next, ClaimedAt lower repr pools (orderOf members pools) group claims next →
    UniformStep pools claims group

/-- Members as a scenario's participants and their formed runs make them. -/
structure WellFormed (members : List Member) (pools : Pools) : Prop where
  names : (members.map fun m => m.1.first).Nodup
  udids : ∀ m ∈ members, ((poolOf pools m).map DeviceFacts.udid).Nodup
  formed : ∀ m ∈ members, m.2.Formed
  web : ∀ m ∈ members, m.2.platform = .web → get pools m.1.pool = none

theorem parse_none_fails : ∀ spec, VersionSpec.parse "None" ≠ .ok spec := by
  intro spec h
  have hError : VersionSpec.parse "None" = .error (.unreadable "None" "None") := rfl
  rw [hError] at h
  cases h

theorem spec_eq_of_key {run run' : TargetRun} (hFormed : run.Formed) (hFormed' : run'.Formed)
    (hKey : run.key = run'.key) : run.spec = run'.spec := by
  have hText : run.specText = run'.specText := congrArg RunKey.spec hKey
  rw [TargetRun.specText, TargetRun.specText] at hText
  cases hSpec : run.spec with
  | none =>
    cases hSpec' : run'.spec with
    | none => rfl
    | some s' =>
      simp only [hSpec, hSpec'] at hText
      exact absurd (hText ▸ hFormed'.spec s' hSpec') (parse_none_fails s')
  | some s =>
    cases hSpec' : run'.spec with
    | none =>
      simp only [hSpec, hSpec'] at hText
      exact absurd (hText ▸ hFormed.spec s hSpec) (parse_none_fails s)
    | some s' =>
      simp only [hSpec, hSpec'] at hText
      have hParse := hFormed.spec s hSpec
      rw [hText, hFormed'.spec s' hSpec'] at hParse
      cases hParse
      rfl

theorem Fits.of_key {run run' : TargetRun} (hFormed : run.Formed) (hFormed' : run'.Formed)
    (hKey : run.key = run'.key) {d : DeviceFacts} (h : Fits lower run d) : Fits lower run' d := by
  have hKind : run.kind = run'.kind := congrArg RunKey.kind hKey
  have hFamily : run.family = run'.family := congrArg RunKey.family hKey
  have hModel : run.model = run'.model := congrArg RunKey.model hKey
  have hMajor : run.major = run'.major := congrArg RunKey.major hKey
  have hSpec := spec_eq_of_key hFormed hFormed' hKey
  exact ⟨hKind ▸ h.kind, hFamily ▸ h.family, hModel ▸ h.model, hSpec ▸ h.range, hMajor ▸ h.major⟩

theorem freeDevices_sublist (pools : Pools) (claims : Claims) (m : Member) :
    (freeDevices pools claims m.1.pool).Sublist (poolOf pools m) := List.filter_sublist

/-- A claimed set is a part of what is free, and every device in it fits the run it is claimed for. -/
theorem eligibleSet_fits {m : Member} {pools : Pools} {claims : Claims} {chosen : List DeviceFacts}
    {demand : Nat} (hFormed : m.2.Formed) (hWeb : m.2.platform ≠ .web)
    (h : eligibleSet lower m.2 (freeDevices pools claims m.1.pool) demand = some chosen) :
    demand ≤ chosen.length ∧ chosen.Sublist (freeDevices pools claims m.1.pool) ∧
      ∀ d ∈ chosen, Fits lower m.2 d := by
  cases hRun : m.2.conditioned with
  | true =>
    obtain ⟨hDemand, hSub, -, hAll⟩ := eligibleSet_conditioned hRun h
    refine ⟨hDemand, hSub, fun d hd => ?_⟩
    obtain ⟨hKind, hFamily, hModel, hIn⟩ := hAll d hd
    obtain ⟨hRange, hMajor⟩ := (inRun_iff hFormed d).mp hIn
    exact ⟨hKind, hFamily, hModel, hRange, hMajor⟩
  | false =>
    obtain ⟨rfl, hDemand⟩ := eligibleSet_unconditioned hRun h
    obtain ⟨hModel, hSpec, hFamily⟩ := hFormed.unconditioned hRun hWeb
    refine ⟨hDemand, List.filter_sublist, fun d hd => ?_⟩
    refine ⟨(List.mem_filter.mp hd).2, ?_, ?_, ?_, ?_⟩
    · rw [hFamily, matchesFamily]
    · rw [hModel, matchesModel]
    · simp [hSpec]
    · simp [hFormed.major hSpec]

theorem mem_members_of_group {members : List Member} {pools : Pools} {group : List Member}
    (hGroup : group ∈ orderOf members pools) {m : Member} (hm : m ∈ group) :
    m ∈ members ∧ (get pools m.1.pool).isSome ∧ group = peers members m := by
  obtain ⟨a, -, hPool, rfl⟩ := mem_orderOf.mp hGroup
  obtain ⟨hMember, hSame, hKey⟩ := mem_peers_iff.mp hm
  refine ⟨hMember, by rwa [hSame], ?_⟩
  rw [peers, peers, hSame, hKey]

theorem not_web_of_group {members : List Member} {pools : Pools} {group : List Member}
    (hWell : WellFormed members pools) (hGroup : group ∈ orderOf members pools) {m : Member}
    (hm : m ∈ group) : m.2.platform ≠ .web := by
  obtain ⟨hMember, hKnown, -⟩ := mem_members_of_group hGroup hm
  intro hWeb
  rw [hWell.web m hMember hWeb] at hKnown
  cases hKnown

theorem disjoint_of_groups {members : List Member} {pools : Pools} {final : Claims}
    (hWell : WellFormed members pools)
    (hAll : claimAll lower repr pools {} (orderOf members pools) = .ok final) {g h : List Member}
    (hg : g ∈ orderOf members pools) (hh : h ∈ orderOf members pools) (hNe : g ≠ h) {m m' : Member}
    (hm : m ∈ g) (hm' : m' ∈ h) (hPool : m'.1.pool = m.1.pool) {us us' : List String}
    (hUs : get final.devices m.1.first = some us) (hUs' : get final.devices m'.1.first = some us') :
    us.Disjoint us' := by
  have hSeparate := separate_orderOf hWell.names pools
  have hFirst : ∀ group ∈ orderOf members pools, ∀ a ∈ group, ∀ b ∈ group, a.1.pool = b.1.pool := by
    intro group hGroup a ha b hb
    obtain ⟨-, -, rfl⟩ := mem_members_of_group hGroup ha
    exact (mem_peers_iff.mp hb).2.1.symm
  -- Whichever group claims first leaves its set out of what the other finds free.
  have hOrdered : ∀ {g h : List Member} {before mid after : List (List Member)} {m m' : Member}
      {us us' : List String}, orderOf members pools = before ++ g :: (mid ++ h :: after) → m ∈ g →
      m' ∈ h → m'.1.pool = m.1.pool → get final.devices m.1.first = some us →
      get final.devices m'.1.first = some us' → us.Disjoint us' := by
    intro g h before mid after m m' us us' hOrder hm hm' hPool hUs hUs'
    have hg : g ∈ orderOf members pools := by rw [hOrder]; simp
    have hh : h ∈ orderOf members pools := by rw [hOrder]; simp
    obtain ⟨c, n, c', n', hAt, hAt', hMono⟩ := claimedAt_pair hOrder hAll
    rcases recorded_cases hSeparate hAll hAt with
      ⟨hNone, -⟩ | ⟨first, rest, chosen, hGroup, -, -, hRecorded, hClaimed⟩
    · rw [hNone m hm] at hUs
      cases hUs
    · rcases recorded_cases hSeparate hAll hAt' with
        ⟨hNone', -⟩ | ⟨first', rest', chosen', hGroup', -, hChosen', hRecorded', -⟩
      · rw [hNone' m' hm'] at hUs'
        cases hUs'
      · rw [hRecorded m hm] at hUs
        rw [hRecorded' m' hm'] at hUs'
        cases hUs
        cases hUs'
        have hFirst' : first' ∈ h := by rw [hGroup']; exact List.mem_cons_self
        obtain ⟨hMember', -, -⟩ := mem_members_of_group hh hFirst'
        obtain ⟨-, hSub, -⟩ :=
          eligibleSet_fits (hWell.formed first' hMember') (not_web_of_group hWell hh hFirst') hChosen'
        intro u hu hu'
        obtain ⟨d, hd, rfl⟩ := List.mem_map.mp hu
        obtain ⟨d', hd', hEq⟩ := List.mem_map.mp hu'
        have hFree := (List.mem_filter.mp (hSub.subset hd')).2
        have hPools : first.1.pool = first'.1.pool := by
          rw [hFirst g hg first (by rw [hGroup]; exact List.mem_cons_self) m hm,
            hFirst h hh first' hFirst' m' hm', hPool]
        simp only [decide_eq_true_eq] at hFree
        exact hFree (hEq ▸ hPools ▸ hMono _ (hClaimed d hd))
  obtain ⟨before, after, hOrder⟩ := List.append_of_mem hg
  have hMem : h ∈ before ∨ h ∈ after := by
    rw [hOrder] at hh
    rcases List.mem_append.mp hh with hh | hh
    · exact .inl hh
    · exact .inr ((List.mem_cons.mp hh).resolve_left (Ne.symm hNe))
  rcases hMem with hMem | hMem
  · obtain ⟨start, mid, rfl⟩ := List.append_of_mem hMem
    have hOrder' : orderOf members pools = start ++ h :: (mid ++ g :: after) := by
      rw [hOrder]
      simp
    exact (hOrdered hOrder' hm' hm hPool.symm hUs' hUs).symm
  · obtain ⟨mid, rest, rfl⟩ := List.append_of_mem hMem
    exact hOrdered hOrder hm hm' hPool hUs hUs'

theorem known_of_recorded {members : List Member} {pools : Pools} {final : Claims}
    (hWell : WellFormed members pools)
    (hAll : claimAll lower repr pools {} (orderOf members pools) = .ok final) {m : Member}
    (hm : m ∈ members) {udids : List String} (hUdids : get final.devices m.1.first = some udids) :
    (get pools m.1.pool).isSome := by
  by_contra hUnknown
  rw [claimAll_frame hAll] at hUdids
  · cases hUdids
  · intro group hGroup hName
    obtain ⟨m', hm', hEq⟩ := List.mem_map.mp hName
    obtain ⟨hMember', hKnown, -⟩ := mem_members_of_group hGroup hm'
    rw [List.inj_on_of_nodup_map hWell.names hMember' hm hEq] at hKnown
    exact hUnknown hKnown

theorem nodup_udids {members : List Member} {pools : Pools} (hWell : WellFormed members pools)
    {m : Member} (hm : m ∈ members) {claims : Claims} {chosen : List DeviceFacts}
    (hSub : chosen.Sublist (freeDevices pools claims m.1.pool)) :
    (chosen.map DeviceFacts.udid).Nodup :=
  (hWell.udids m hm).sublist ((hSub.trans (freeDevices_sublist pools claims m)).map _)

/-- A run that claims every set records sound sets exactly when no step takes devices of several models
or releases for a conditioned member. -/
theorem sound_iff {members : List Member} {pools : Pools} {final : Claims}
    (hWell : WellFormed members pools)
    (hAll : claimAll lower repr pools {} (orderOf members pools) = .ok final) :
    Sound lower members pools final.devices ↔ StepsUniform lower repr members pools := by
  have hSeparate := separate_orderOf hWell.names pools
  constructor
  · intro hSound group claims next hAt m hm hCond
    have hGroup : group ∈ orderOf members pools := by
      obtain ⟨before, after, hOrder, -⟩ := hAt.reached
      rw [hOrder]
      simp
    obtain ⟨hMember, -, hPeers⟩ := mem_members_of_group hGroup hm
    rcases recorded_cases hSeparate hAll hAt with
      ⟨-, hNothing⟩ | ⟨first, rest, chosen, hEq, -, hChosen, hRecorded, -⟩
    · obtain ⟨first, rest, rfl⟩ := List.exists_cons_of_ne_nil (List.ne_nil_of_mem hm)
      have hPool := (mem_peers_iff.mp (hPeers ▸ List.mem_cons_self (a := first) (l := rest))).2.1
      exact .inr (.inl (hPool ▸ hNothing first rfl))
    · have hFirst : first ∈ peers members m := by rw [← hPeers, hEq]; exact List.mem_cons_self
      obtain ⟨-, hPool, hKey⟩ := mem_peers_iff.mp hFirst
      cases hRun : first.2.conditioned with
      | true => exact .inl (by rw [hEq]; exact hRun)
      | false =>
        obtain ⟨hKindSet, -⟩ := eligibleSet_unconditioned hRun hChosen
        have hKind : first.2.kind = m.2.kind := congrArg RunKey.kind hKey
        rw [hKind, hPool] at hKindSet
        obtain ⟨model, version, hUniform⟩ := (hSound m hMember _ (hRecorded m hm)).uniform hCond
        refine .inr (.inr ⟨model, version, fun d hd => ?_⟩)
        have hd' : d ∈ poolOf pools m :=
          (freeDevices_sublist pools claims m).subset (List.mem_filter.mp hd).1
        obtain ⟨d', hMem', hUdid, hModel, hVersion⟩ :=
          hUniform d.udid (List.mem_map_of_mem (hKindSet ▸ hd))
        obtain rfl := List.inj_on_of_nodup_map (hWell.udids m hMember) hMem' hd' hUdid
        exact ⟨hModel, hVersion⟩
  · intro hSteps m hm udids hUdids
    have hKnown := known_of_recorded hWell hAll hm hUdids
    have hGroup : peers members m ∈ orderOf members pools := mem_orderOf.mpr ⟨m, hm, hKnown, rfl⟩
    have hSelf := self_mem_peers hm
    obtain ⟨claims, next, hAt⟩ := exists_claimedAt hAll hGroup
    rcases recorded_cases hSeparate hAll hAt with
      ⟨hNone, -⟩ | ⟨first, rest, chosen, hEq, hClaims, hChosen, hRecorded, -⟩
    · rw [hNone m hSelf] at hUdids
      cases hUdids
    rw [hRecorded m hSelf] at hUdids
    cases hUdids
    have hFirst : first ∈ peers members m := by rw [hEq]; exact List.mem_cons_self
    obtain ⟨hMember, hPool, hKey⟩ := mem_peers_iff.mp hFirst
    have hFormed := hWell.formed first hMember
    obtain ⟨hDemand, hSub, hFits⟩ :=
      eligibleSet_fits hFormed (not_web_of_group hWell hGroup hFirst) hChosen
    have hInPool : ∀ d ∈ chosen, d ∈ poolOf pools m := by
      intro d hd
      have := (freeDevices_sublist pools claims first).subset (hSub.subset hd)
      rwa [poolOf, hPool] at this
    refine ⟨fun u hu => ?_, fun hCond => ?_, ⟨?_, ?_⟩, fun m' hm' => hRecorded m' hm', ?_⟩
    · obtain ⟨d, hd, rfl⟩ := List.mem_map.mp hu
      exact ⟨d, hInPool d hd, rfl, (hFits d hd).of_key hFormed (hWell.formed m hm) hKey⟩
    · have hUniform : Uniform chosen := by
        cases hRun : first.2.conditioned with
        | true => exact (eligibleSet_conditioned hRun hChosen).2.2.1
        | false =>
          obtain ⟨hKindSet, -⟩ := eligibleSet_unconditioned hRun hChosen
          have hKind : first.2.kind = m.2.kind := congrArg RunKey.kind hKey
          rcases hSteps _ _ _ hAt m hSelf hCond with hHead | hNothing | hUniform
          · rw [hEq, conditionedFirst, hRun] at hHead
            cases hHead
          · rw [hRun, hPool] at hClaims
            simp [hNothing] at hClaims
          · rwa [hKindSet, hKind, hPool]
      obtain ⟨model, version, hAllSame⟩ := hUniform
      refine ⟨model, version, fun u hu => ?_⟩
      obtain ⟨d, hd, rfl⟩ := List.mem_map.mp hu
      exact ⟨d, hInPool d hd, rfl, hAllSame d hd⟩
    · exact nodup_udids hWell hMember hSub
    · rwa [List.length_map]
    · intro m' hm' hPool' hKey' others hOthers
      have hGroup' : peers members m' ∈ orderOf members pools :=
        mem_orderOf.mpr ⟨m', hm', by rwa [hPool'], rfl⟩
      have hNe : peers members m ≠ peers members m' := by
        intro hPeers
        have hMem := hPeers ▸ hSelf
        exact hKey' (mem_peers_iff.mp hMem).2.2.symm
      exact disjoint_of_groups hWell hAll hGroup hGroup' hNe hSelf (self_mem_peers hm') hPool'
        (hRecorded m hSelf) hOthers

end Assignment

end Bajutsu.Devices
