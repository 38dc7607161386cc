import Bajutsu.Crawl.Serialize

/-!
# A saved screen map is read back

Every part that is written is read back as it was. The exceptions are the empty kinds: they read as kinds that are
missing, and a missing kind has a default.
-/

namespace Bajutsu.Crawl.Serialize

open PyValue Evidence.EvidenceRedactor

/-! ## Maps that are equal -/

/-- An action with its kind as the string it is. -/
def plain (a : Action) : Action := { a with kind := .other a.kind.text }

/-- The rectangle of an action of the screen, the last one where several are listed. -/
def Node.rectangle (n : Node) (desc : String) : Option Rect := get (dictOf n.targets) desc

def Node.Same (n n' : Node) : Prop := n.toNode = n'.toNode ∧ ∀ desc, n.rectangle desc = n'.rectangle desc

def Crash.Same (c c' : Crash) : Prop := c.path = c'.path ∧ c.actions.map plain = c'.actions.map plain

def Pruned.Same (p p' : Pruned) : Prop :=
  p.src = p'.src ∧ p.action = p'.action ∧ p.key = p'.key ∧ p.owner = p'.owner ∧ p.path.map plain = p'.path.map plain

/-- The dictionaries have the same entries, in any order. -/
structure Same (m m' : ScreenMap) : Prop where
  nodes : ∀ fp, Option.Rel Node.Same (get m.nodes fp) (get m'.nodes fp)
  edges : m.edges = m'.edges
  crashes : List.Forall₂ Crash.Same m.crashes m'.crashes
  alerts : m.alerts = m'.alerts
  plan : ∀ fp, get m.plan fp = get m'.plan fp
  pruned : List.Forall₂ Pruned.Same m.pruned m'.pruned
  paths : ∀ fp, (get m.paths fp).map (List.map plain) = (get m'.paths fp).map (List.map plain)
  stopReason : m.stopReason = m'.stopReason

/-- Every action of the map. -/
def ScreenMap.actions (m : ScreenMap) : List Action :=
  m.crashes.flatMap Crash.actions ++ m.pruned.flatMap Pruned.path ++ m.paths.flatMap Prod.snd

/-! ## JSON leaves what is written as it is -/

theorem strings_round (texts : List String) : jsonRound (strings texts) = strings texts :=
  jsonRound_list fun x hx => by
    obtain ⟨s, -, rfl⟩ := List.mem_map.mp hx
    rfl

theorem jsonRound_map {α : Type*} {f : α → Val} (h : ∀ a, jsonRound (f a) = f a) (xs : List α) :
    jsonRound (.list (xs.map f)) = .list (xs.map f) :=
  jsonRound_list fun x hx => by
    obtain ⟨a, -, rfl⟩ := List.mem_map.mp hx
    exact h a

theorem jsonRound_mapItems {α : Type*} {f : α → Val} (h : ∀ a, jsonRound (f a) = f a) (d : List (String × α)) :
    jsonRound (.dict (d.map fun item => (item.1, f item.2))) = .dict (d.map fun item => (item.1, f item.2)) :=
  jsonRound_dict fun x hx => by
    obtain ⟨item, -, rfl⟩ := List.mem_map.mp hx
    exact h item.2

theorem round_entry {key : String} {value : Option Val} (h : ∀ v ∈ value, jsonRound v = v) :
    ∀ item ∈ entry key value, jsonRound item.2 = item.2 := by
  intro item hItem
  cases value with
  | none => cases hItem
  | some v =>
    rw [List.mem_singleton.mp hItem]
    exact h v rfl

theorem action_round (a : Action) : jsonRound (.dict (actionToDict a)) = .dict (actionToDict a) := by
  apply jsonRound_dict
  intro item hItem
  simp only [actionToDict, List.append_assoc, List.mem_append] at hItem
  obtain hItem | hItem | hItem | hItem | hItem | hItem | hItem | hItem := hItem
  · rw [List.mem_singleton.mp hItem]
    rfl
  all_goals refine round_entry ?_ item hItem
  all_goals intro v hv
  · split at hv <;> cases hv
    rfl
  · obtain ⟨s, -, rfl⟩ := Option.map_eq_some_iff.mp hv
    rfl
  · obtain ⟨i, -, rfl⟩ := Option.map_eq_some_iff.mp hv
    rfl
  · obtain ⟨s, -, rfl⟩ := Option.map_eq_some_iff.mp hv
    rfl
  · split at hv <;> cases hv
    exact jsonRound_map (fun _ => rfl) _
  · obtain ⟨p, -, rfl⟩ := Option.map_eq_some_iff.mp hv
    rfl
  · split at hv <;> cases hv
    rfl

theorem actions_round (actions : List Action) : jsonRound (actionsDict actions) = actionsDict actions :=
  jsonRound_map action_round actions

theorem node_round (n : Node) : jsonRound (nodeDict n) = nodeDict n := by
  apply jsonRound_dict
  simp only [List.forall_mem_cons, strings_round]
  exact ⟨rfl, rfl, trivial, trivial, trivial, jsonRound_mapItems (fun _ => rfl) _, nofun⟩

theorem edge_round (e : Edge) : jsonRound (edgeDict e) = edgeDict e := by
  apply jsonRound_dict
  simp only [List.forall_mem_cons, strings_round]
  exact ⟨rfl, rfl, rfl, trivial, nofun⟩

theorem crash_round (c : Crash) : jsonRound c.dict = c.dict := by
  apply jsonRound_dict
  simp only [List.forall_mem_cons, actions_round]
  exact ⟨strings_round c.path, trivial, nofun⟩

theorem alert_round (a : Alert) : jsonRound (alertDict a) = alertDict a := by
  apply jsonRound_dict
  simp only [List.forall_mem_cons, strings_round]
  exact ⟨trivial, trivial, nofun⟩

theorem pruned_round (p : Pruned) : jsonRound p.dict = p.dict := by
  apply jsonRound_dict
  simp only [List.forall_mem_cons, actions_round]
  exact ⟨rfl, rfl, rfl, rfl, trivial, nofun⟩

theorem screenmap_round (m : ScreenMap) : jsonRound (screenmapDict m) = screenmapDict m := by
  apply jsonRound_dict
  simp only [List.forall_mem_cons]
  exact ⟨jsonRound_map node_round _, jsonRound_map edge_round _, jsonRound_map crash_round _,
    jsonRound_map alert_round _, jsonRound_mapItems strings_round _, jsonRound_mapItems actions_round _,
    jsonRound_map pruned_round _, rfl, nofun⟩

/-! ## Each part is read back -/

variable (py : Builtins)

theorem orElse_str {s : String} (h : s ≠ "") (other : Val) : orElse (some (.str s)) other = .str s := by
  simp [orElse, Option.filter, truthy, h]

theorem orElse_list (xs : List Val) : orElse (some (.list xs)) (.list []) = .list xs := by
  cases xs <;> rfl

theorem orElse_dict (d : List (String × Val)) : orElse (some (.dict d)) (.dict []) = .dict d := by
  cases d <;> rfl

theorem toStr_orElse_empty (s : String) : py.toStr (orElse (some (.str s)) (.str "")) = s := by
  by_cases h : s = ""
  · subst h
    rfl
  · rw [orElse_str h]
    rfl

theorem each_map {α : Type} {read : Val → Option α} {write : α → Val} {back : α → α} {xs : List α}
    (h : ∀ x ∈ xs, read (write x) = some (back x)) :
    each read (some (.list (xs.map write))) = some (xs.map back) := by
  have hRead : (xs.map write).mapM read = some (xs.map back) := by
    rw [List.mapM_map]
    exact mapM_eq_some h
  rw [each, orElse_list]
  exact hRead

theorem mapM_text (texts : List String) : (texts.map Val.str).mapM text = some texts := by
  rw [List.mapM_map]
  exact (mapM_eq_some fun _ _ => rfl).trans (congrArg some (List.map_id texts))

theorem texts_strings (ts : List String) : texts (some (strings ts)) = some ts := by
  rw [texts, strings, orElse_list]
  exact mapM_text ts

theorem text_ofText (kind : String) : (ActionKind.ofText kind).text = kind := by
  unfold ActionKind.ofText
  split_ifs with hTap hType hFill hPoint
  · exact hTap.symm
  · exact hType.symm
  · exact hFill.symm
  · exact hPoint.symm
  · rfl

theorem get_kind (a : Action) : get (actionToDict a) "kind" = some (.str a.kind.text) := by
  simp [actionToDict, PyValue.get]

theorem get_index (a : Action) : get (actionToDict a) "index" = a.index.map .int := by
  simp [actionToDict, get_append, get_entry, PyValue.get]

theorem get_point (a : Action) : get (actionToDict a) "point" = a.point.map fun p => .list [.float p.1, .float p.2] := by
  simp [actionToDict, get_append, get_entry, PyValue.get]

/-- The action as it is read back. -/
def reread (a : Action) : Action := { a with kind := ActionKind.ofText a.kind.text }

theorem plain_reread (a : Action) : plain (reread a) = plain a := by
  rw [plain, plain, reread, text_ofText]

theorem action_read {a : Action} (hKind : a.kind.text ≠ "") :
    actionFromDict py (.dict (actionToDict a)) = some (reread a) := by
  have hFields : elements (orElse (get (actionToDict a) "fields") (.list [])) = some (a.fields.map pairDict) := by
    rw [get_fields]
    by_cases hNone : a.fields = []
    · rw [if_pos hNone, hNone]
      rfl
    · rw [if_neg hNone, orElse_list]
      rfl
  have hPairs : (a.fields.map pairDict).mapM (fieldFromDict py) = some a.fields := by
    rw [List.mapM_map]
    exact (mapM_eq_some fun _ _ => rfl).trans (congrArg some (List.map_id a.fields))
  have hTarget : py.toStr (orElse (get (actionToDict a) "target") (.str "")) = a.target := by
    rw [get_target]
    by_cases hNone : a.target = ""
    · rw [if_pos hNone, hNone]
      rfl
    · rw [if_neg hNone, orElse_str hNone]
      rfl
  have hLabel : optionalText (get (actionToDict a) "label") = some a.label := by
    rw [get_label]
    cases a.label <;> rfl
  have hIndex : optionalInt (get (actionToDict a) "index") = some a.index := by
    rw [get_index]
    cases a.index <;> rfl
  have hValue : optionalText (get (actionToDict a) "value") = some a.value := by
    rw [get_value]
    cases a.value <;> rfl
  have hPoint : pointFromDict py (get (actionToDict a) "point") = some a.point := by
    rw [get_point]
    cases a.point <;> rfl
  have hSecure : (get (actionToDict a) "secure").any truthy = a.secure := by
    rw [get_secure]
    cases a.secure <;> rfl
  have hKindText : py.toStr (orElse (get (actionToDict a) "kind") (.str "tap")) = a.kind.text := by
    rw [get_kind, orElse_str hKind]
    rfl
  simp only [actionFromDict, items, Option.pure_def, Option.bind_eq_bind, Option.bind_some, hFields, hPairs, hTarget,
    hLabel, hIndex, hValue, hPoint, hSecure, hKindText]
  rfl

theorem actions_read {actions : List Action} (hKinds : ∀ a ∈ actions, a.kind.text ≠ "") :
    actionsFromDict py (some (actionsDict actions)) = some (actions.map reread) :=
  each_map fun a ha => action_read py (hKinds a ha)

/-- The screen as it is read back: a description has one rectangle. -/
def rereadNode (n : Node) : Node := { n with targets := dictOf n.targets }

theorem node_read {n : Node} (hKind : n.kind ≠ "") : nodeFromDict py (nodeDict n) = some (rereadNode n) := by
  have hTargets : ((dictOf n.targets).map fun item => (item.1, rectDict item.2)).mapM
      (fun item => (rectFromDict py item.2).bind fun r => some (item.1, r)) = some (dictOf n.targets) := by
    rw [List.mapM_map]
    exact (mapM_eq_some fun _ _ => rfl).trans (congrArg some (List.map_id _))
  have hKindText : py.toStr (orElse (some (.str n.kind)) (.str "id")) = n.kind := by
    rw [orElse_str hKind]
    rfl
  simp [nodeFromDict, nodeDict, items, PyValue.get, orElse_dict, hTargets, texts_strings, hKindText]
  rfl

theorem edge_read (e : Edge) : edgeFromDict py (edgeDict e) = some e := by
  simp [edgeFromDict, edgeDict, items, PyValue.get, texts_strings, Builtins.toStr]

theorem alert_read (a : Alert) : alertFromDict (alertDict a) = some a := by
  simp [alertFromDict, alertDict, items, PyValue.get, texts_strings]

theorem crash_read {c : Crash} (hKinds : ∀ a ∈ c.actions, a.kind.text ≠ "") :
    crashFromDict py c.dict = some { c with actions := c.actions.map reread } := by
  have hPath : texts (some (.list (c.path.map .str))) = some c.path := texts_strings c.path
  simp [crashFromDict, Crash.dict, items, PyValue.get, hPath, actions_read py hKinds]

theorem pruned_read {p : Pruned} (hKinds : ∀ a ∈ p.path, a.kind.text ≠ "") :
    prunedFromDict py p.dict = some { p with path := p.path.map reread } := by
  simp [prunedFromDict, Pruned.dict, items, PyValue.get, actions_read py hKinds, Builtins.toStr]

/-! ## The dictionaries -/

theorem sorted_keys {β : Type} {d : List (String × β)} (h : (d.map Prod.fst).Nodup) (k : String) :
    get (dictOf (sortedItems d)) k = get d k :=
  get_dictOf_perm (List.perm_insertionSort _ d) h k

def sortedNodes (m : ScreenMap) : List Node :=
  (m.nodes.map Prod.snd).insertionSort fun a b => a.fingerprint ≤ b.fingerprint

theorem nodes_read {m : ScreenMap} (hKeyed : ∀ item ∈ m.nodes, item.1 = item.2.fingerprint) (fp : String) :
    get (dictOf (((sortedNodes m).map rereadNode).map fun node => (node.fingerprint, node))) fp =
      (get m.nodes fp).map rereadNode := by
  have hItems : ((m.nodes.map Prod.snd).map rereadNode).map (fun node => (node.fingerprint, node)) =
      m.nodes.map fun item => (item.1, rereadNode item.2) := by
    rw [List.map_map, List.map_map]
    apply List.map_congr_left
    intro item hItem
    rw [hKeyed item hItem]
    rfl
  have hPerm : (((sortedNodes m).map rereadNode).map fun node => (node.fingerprint, node)).Perm
      (m.nodes.map fun item => (item.1, rereadNode item.2)) := by
    rw [← hItems]
    exact ((List.perm_insertionSort _ _).map rereadNode).map _
  rw [get_dictOf_perm hPerm, get_map]
  rw [List.map_map]
  exact m.nodesKeys

theorem node_same (n : Node) : Node.Same n (rereadNode n) := by
  refine ⟨rfl, fun desc => ?_⟩
  rw [Node.rectangle, Node.rectangle, rereadNode, dictOf_eq_self (nodup_dictOf n.targets)]

theorem plain_reread_list (actions : List Action) : (actions.map reread).map plain = actions.map plain := by
  rw [List.map_map]
  exact List.map_congr_left fun a _ => plain_reread a

/-! ## The whole map -/

theorem paths_read {m : ScreenMap} (hKinds : ∀ item ∈ m.paths, ∀ a ∈ item.2, a.kind.text ≠ "") :
    ((sortedItems m.paths).map fun item => (item.1, actionsDict item.2)).mapM
      (fun item => (actionsFromDict py (some item.2)).bind fun actions => some (item.1, actions)) =
        some ((sortedItems m.paths).map fun item => (item.1, item.2.map reread)) := by
  rw [List.mapM_map]
  apply mapM_eq_some
  intro item hItem
  have hMem : item ∈ m.paths := (List.perm_insertionSort _ m.paths).mem_iff.mp hItem
  simp [actions_read py (hKinds item hMem)]

theorem plan_read (m : ScreenMap) :
    ((sortedItems m.plan).map fun item => (item.1, strings item.2)).mapM
      (fun item => (elements item.2).bind fun ops => (ops.mapM text).bind fun ops => some (item.1, ops)) =
        some (sortedItems m.plan) := by
  rw [List.mapM_map]
  refine (mapM_eq_some fun item _ => ?_).trans (congrArg some (List.map_id _))
  have hOps : (item.2.map Val.str).mapM text = some item.2 := mapM_text item.2
  simp only [Function.comp_apply, strings, elements, Option.bind_some, hOps, id]

/-- The map as it is read back. -/
def rereadMap (m : ScreenMap) : ScreenMap where
  nodes := dictOf (((sortedNodes m).map rereadNode).map fun node => (node.fingerprint, node))
  edges := m.edges
  crashes := m.crashes.map fun c => { c with actions := c.actions.map reread }
  alerts := m.alerts
  plan := dictOf (sortedItems m.plan)
  pruned := m.pruned.map fun p => { p with path := p.path.map reread }
  paths := dictOf ((sortedItems m.paths).map fun item => (item.1, item.2.map reread))
  stopReason := m.stopReason
  nodesKeys := nodup_dictOf _
  planKeys := nodup_dictOf _
  pathsKeys := nodup_dictOf _

theorem screenmap_read {m : ScreenMap} (hNodes : ∀ item ∈ m.nodes, item.2.kind ≠ "")
    (hActions : ∀ a ∈ m.actions, a.kind.text ≠ "") :
    screenmapFromDict py (screenmapDict m) = some (rereadMap m) := by
  simp only [ScreenMap.actions, List.mem_append, List.mem_flatMap] at hActions
  have hSorted : ∀ n ∈ sortedNodes m, n.kind ≠ "" := by
    intro n hn
    obtain ⟨item, hItem, rfl⟩ := List.mem_map.mp ((List.perm_insertionSort _ _).mem_iff.mp hn)
    exact hNodes item hItem
  have hNodesRead := each_map fun n hn => node_read py (hSorted n hn)
  have hEdgesRead := @each_map _ _ _ id m.edges fun e _ => edge_read py e
  have hCrashesRead := @each_map _ _ _ _ m.crashes fun c hc =>
    crash_read py fun a ha => hActions a (.inl (.inl ⟨c, hc, ha⟩))
  have hAlertsRead := @each_map _ _ _ id m.alerts fun a _ => alert_read a
  have hPrunedRead := @each_map _ _ _ _ m.pruned fun p hp =>
    pruned_read py fun a ha => hActions a (.inl (.inr ⟨p, hp, ha⟩))
  have hPathsRead := @paths_read py m fun item hItem a ha => hActions a (.inr ⟨item, hItem, ha⟩)
  have hPlanRead := plan_read m
  rw [List.map_id] at hEdgesRead hAlertsRead
  rw [sortedNodes] at hNodesRead
  simp [screenmapFromDict, screenmapDict, items, PyValue.get, orElse_dict, toStr_orElse_empty, hNodesRead, hEdgesRead,
    hCrashesRead, hAlertsRead, hPrunedRead, hPathsRead, hPlanRead]
  simp only [rereadMap, sortedNodes, List.map_map]

theorem reread_same {m : ScreenMap} (hKeyed : ∀ item ∈ m.nodes, item.1 = item.2.fingerprint) :
    Same m (rereadMap m) where
  nodes fp := by
    have hNodes : get (rereadMap m).nodes fp = (get m.nodes fp).map rereadNode := nodes_read hKeyed fp
    rw [hNodes]
    cases get m.nodes fp with
    | none => exact .none
    | some n => exact .some (node_same n)
  edges := rfl
  crashes := by
    rw [rereadMap, List.forall₂_map_right_iff, List.forall₂_same]
    exact fun c _ => ⟨rfl, (plain_reread_list c.actions).symm⟩
  alerts := rfl
  plan fp := (sorted_keys m.planKeys fp).symm
  pruned := by
    rw [rereadMap, List.forall₂_map_right_iff, List.forall₂_same]
    exact fun p _ => ⟨rfl, rfl, rfl, rfl, (plain_reread_list p.path).symm⟩
  paths fp := by
    have hPerm : ((sortedItems m.paths).map fun item => (item.1, item.2.map reread)).Perm
        (m.paths.map fun item => (item.1, item.2.map reread)) :=
      (List.perm_insertionSort _ m.paths).map _
    rw [rereadMap, get_dictOf_perm hPerm, get_map]
    · cases get m.paths fp with
      | none => rfl
      | some actions => exact congrArg some (plain_reread_list actions).symm
    · rw [List.map_map]
      exact m.pathsKeys
  stopReason := rfl

/-- A map is read back as it was where no kind is empty. -/
theorem screenmap_survives (m : ScreenMap) (hKeyed : ∀ item ∈ m.nodes, item.1 = item.2.fingerprint)
    (hNodes : ∀ item ∈ m.nodes, item.2.kind ≠ "") (hActions : ∀ a ∈ m.actions, a.kind.text ≠ "") :
    ∃ m', screenmapFromDict py (jsonRound (screenmapDict m)) = some m' ∧ Same m m' := by
  refine ⟨rereadMap m, ?_, reread_same hKeyed⟩
  rw [screenmap_round]
  exact screenmap_read py hNodes hActions

/-- A screen reached by a tap in the corner of its window, on a control with an empty label. -/
def cornerMap : ScreenMap where
  nodes := [("f1", {
    fingerprint := "f1", kind := "id", ids := ["home"], actions := ["tap home"], blocked := []
    targets := [("tap home", .fin 0, .fin 0, .fin 1, .fin 1)] })]
  paths := [("f1", [{ kind := .tapPoint, label := some "", index := some 0, point := some (.fin 0, .fin 0) }])]

theorem corner_survives :
    ∃ m', screenmapFromDict ⟨fun _ => "", fun _ => none⟩ (jsonRound (screenmapDict cornerMap)) = some m' ∧
      Same cornerMap m' := by
  apply screenmap_survives
  · simp [cornerMap]
  · simp [cornerMap]
  · simp [cornerMap, ScreenMap.actions, ActionKind.text]

/-- An action whose kind is empty is read back as a tap. -/
theorem empty_kind_is_tap : ¬∀ (py : Builtins) (m : ScreenMap), (∀ item ∈ m.nodes, item.1 = item.2.fingerprint) →
    ∃ m', screenmapFromDict py (jsonRound (screenmapDict m)) = some m' ∧ Same m m' := by
  intro h
  obtain ⟨m', hRead, hSame⟩ := h ⟨fun _ => "", fun _ => none⟩ { paths := [("f1", [{ kind := .other "" }])] } nofun
  have hTap : screenmapFromDict ⟨fun _ => "", fun _ => none⟩
      (jsonRound (screenmapDict { paths := [("f1", [{ kind := .other "" }])] })) =
        some { paths := [("f1", [{ kind := .tap }])] } := by
    rfl
  rw [hTap] at hRead
  cases hRead
  exact absurd (hSame.paths "f1") (by decide)

end Bajutsu.Crawl.Serialize
