import Bajutsu.Lib.PyValue

/-!
# Layered configuration merge

The team `defaults`, the platform block they hold and every template or target layer are laid on one
another before validation. Dictionaries merge key by key, lists replace, `null` clears a key, a few
lists under `evidence` union, and `hooks.interrupts` merges form by form.
-/

namespace Bajutsu.Config

open PyValue

abbrev Dict := List (String × Val)

abbrev Path := List String

def unionLists : List Path :=
  [["evidence", "secrets"], ["evidence", "redact", "labels"], ["evidence", "redact", "headers"],
    ["evidence", "redact", "fields"], ["evidence", "redact", "unmaskHeaders"]]

def noNull : List Path := unionLists ++ [["evidence"], ["evidence", "redact"]]

def interruptsPath : Path := ["hooks", "interrupts"]

def notMerged : List String := ["ai", "platforms"]

inductive Form where
  | screen
  | systemAlert
  | tipKit
  deriving DecidableEq

def form : Val → Form
  | .dict entry =>
    match get entry "systemAlert" with
    | some (.str _) => .systemAlert
    | _ => if (get entry "tipKit").isSome then .tipKit else .screen
  | _ => .screen

/-- `entry["systemAlert"]`, read only on entries of the `systemAlert` form. -/
def prompt : Val → Option Val
  | .dict entry => get entry "systemAlert"
  | _ => none

def ofForm (f : Form) (entries : List Val) : List Val := entries.filter fun e => form e = f

/-- `over or base`, as Python's `or` picks the first non-empty list. -/
def orElse (layer base : List Val) : List Val := if layer = [] then base else layer

def mergeInterrupts (base layer : List Val) : List Val :=
  if layer = [] then []
  else
    let screens := orElse (ofForm .screen layer) (ofForm .screen base)
    let overAlerts := ofForm .systemAlert layer
    let named := overAlerts.map prompt
    let alerts := (ofForm .systemAlert base).filter fun e => prompt e ∉ named
    let tipKit := orElse (ofForm .tipKit layer) (ofForm .tipKit base)
    screens ++ alerts ++ overAlerts ++ tipKit

def nullError (here : Path) : String :=
  ".".intercalate here ++ ": null cannot clear it, since that would drop the team-wide " ++
    "secrets or redaction rules; a target adds to these lists, never replaces them"

mutual
/-- What key `here` holds once `value` is laid on `current`; `none` is a key that is popped. -/
def mergeValue (current : Option Val) (here : Path) : Val → Except String (Option Val)
  | .null => if here ∈ noNull then .error (nullError here) else .ok none
  | .dict layer =>
    match current with
    | some (.dict base) => (mergeItems base layer here).map fun merged => some (.dict merged)
    | _ => .ok (some (.dict layer))
  | .list layer =>
    match current with
    | some (.list base) =>
      if here ∈ unionLists then .ok (some (.list (base ++ layer).eraseDups))
      else if here = interruptsPath then .ok (some (.list (mergeInterrupts base layer)))
      else .ok (some (.list layer))
    | _ => .ok (some (.list layer))
  | value => .ok (some value)

/-- The loop over `over.items()`, with `out` the dictionary built so far. -/
def mergeItems (out : Dict) : Dict → Path → Except String Dict
  | [], _ => .ok out
  | (key, value) :: rest, path =>
    match mergeValue (get out key) (path ++ [key]) value with
    | .error message => .error message
    | .ok none => mergeItems (pop out key) rest path
    | .ok (some merged) => mergeItems (set out key merged) rest path
end

attribute [local simp] mergeValue mergeItems

def mergeLayer (base layer : Dict) (path : Path) : Except String Dict := mergeItems base layer path

def platformOf (layer : Dict) : Option String :=
  match get layer "platform" with
  | some (.str p) => some p
  | _ => none

/-- The first platform a layer declares as a string. -/
def declaredPlatform (layers : List Dict) : Option String := layers.findSome? platformOf

def sharedGroups (defaults : Option Dict) : Dict :=
  (defaults.getD []).filter fun item => item.1 ∉ notMerged

/-- `platforms.get(platform)`, kept only when it is a dictionary. -/
def platformBlock (defaults : Option Dict) (layers : List Dict) : Option Dict :=
  match get (defaults.getD []) "platforms", declaredPlatform layers with
  | some (.dict platforms), some platform =>
    match get platforms platform with
    | some (.dict block) => some block
    | _ => none
  | _, _ => none

def mergeAll (out : Dict) : List Dict → Except String Dict
  | [] => .ok out
  | layer :: layers =>
    match mergeLayer out layer [] with
    | .error message => .error message
    | .ok next => mergeAll next layers

def mergeDefaults (defaults : Option Dict) (layers : List Dict) : Except String Dict :=
  mergeAll (sharedGroups defaults) ((platformBlock defaults layers).toList ++ layers)

/-! ## What one layer does to the value at a path -/

theorem get_mergeItems {layer : Dict} {path : Path} {out merged : Dict}
    (hNodup : (layer.map Prod.fst).Nodup) (h : mergeItems out layer path = .ok merged) (k : String) :
    match get layer k with
    | none => get merged k = get out k
    | some value => mergeValue (get out k) (path ++ [k]) value = .ok (get merged k) := by
  induction layer generalizing out with
  | nil =>
    cases h
    rfl
  | cons item layer ih =>
    obtain ⟨key, value⟩ := item
    obtain ⟨hKey, hNodup⟩ := List.nodup_cons.mp hNodup
    -- The rest of the layer never names `key` again, so what this item writes survives.
    have hAbsent : get layer key = none := by
      cases hGet : get layer key with
      | none => rfl
      | some v => exact absurd (List.mem_map_of_mem (f := Prod.fst) (get_mem hGet)) hKey
    rw [mergeItems] at h
    rw [get_cons]
    cases hValue : mergeValue (get out key) (path ++ [key]) value with
    | error message => simp [hValue] at h
    | ok result =>
      cases result with
      | none =>
        simp only [hValue] at h
        have hRest := ih hNodup h
        by_cases hk : key = k
        · subst hk
          simpa [hAbsent, hValue, eq_comm] using hRest
        · rw [if_neg hk]
          rwa [get_pop_ne _ (Ne.symm hk)] at hRest
      | some v =>
        simp only [hValue] at h
        have hRest := ih hNodup h
        by_cases hk : key = k
        · subst hk
          simpa [hAbsent, hValue, eq_comm] using hRest
        · rw [if_neg hk]
          rwa [get_set_ne _ _ (Ne.symm hk)] at hRest

/-- The list a value holds at a path below it. -/
def entries (current : Option Val) (ks : Path) : Option (List Val) :=
  match current.bind fun v => v.lookup ks with
  | some (.list xs) => some xs
  | _ => none

/-- Every value on the way to `ks` is absent, `null` or a dictionary, and the last one absent, `null`
or a list of strings. -/
def Typed : Option Val → Path → Prop
  | none, _ => True
  | some .null, _ => True
  | some (.list xs), [] => ∀ x ∈ xs, ∃ s, x = .str s
  | some (.dict d), k :: ks => Typed (get d k) ks
  | _, _ => False

/-- Every path from `here` down to `ks` refuses `null`, and the last one unions. -/
def Guarded (here : Path) : Path → Prop
  | [] => here ∈ noNull ∧ here ∈ unionLists
  | k :: ks => here ∈ noNull ∧ Guarded (here ++ [k]) ks

instance decidableGuarded : (here ks : Path) → Decidable (Guarded here ks)
  | here, [] => inferInstanceAs (Decidable (here ∈ noNull ∧ here ∈ unionLists))
  | here, k :: ks =>
    have := decidableGuarded (here ++ [k]) ks
    inferInstanceAs (Decidable (here ∈ noNull ∧ Guarded (here ++ [k]) ks))

def union : Option (List Val) → Option (List Val) → Option (List Val)
  | some xs, some ys => some (xs ++ ys).eraseDups
  | some xs, none => some xs
  | none, ys => ys

@[simp] theorem union_none (xs : Option (List Val)) : union xs none = xs := by cases xs <;> rfl

@[simp] theorem none_union (xs : Option (List Val)) : union none xs = xs := rfl

@[simp] theorem entries_none (ks : Path) : entries none ks = none := rfl

@[simp] theorem entries_null (ks : Path) : entries (some .null) ks = none := by cases ks <;> rfl

@[simp] theorem entries_list (xs : List Val) : entries (some (.list xs)) [] = some xs := rfl

@[simp] theorem entries_dict (d : Dict) (k : String) (ks : Path) :
    entries (some (.dict d)) (k :: ks) = entries (get d k) ks := rfl

theorem mergeValue_ne_null {current result : Option Val} {here : Path} {value : Val}
    (hHere : here ∈ noNull) (h : mergeValue current here value = .ok result) : value ≠ .null := by
  rintro rfl
  simp [mergeValue, hHere] at h

theorem mergeValue_list {current result : Option Val} {here : Path} {value : Val}
    (hHere : Guarded here []) (hCurrent : Typed current []) (hValue : Typed (some value) [])
    (h : mergeValue current here value = .ok result) :
    ∃ ys, value = .list ys ∧ result = (union (entries current []) (some ys)).map .list := by
  have hNull := mergeValue_ne_null hHere.1 h
  cases value with
  | list ys =>
    refine ⟨ys, rfl, ?_⟩
    cases current with
    | none => simpa [mergeValue, eq_comm] using h
    | some current =>
      cases current with
      | null => simpa [mergeValue, eq_comm] using h
      | list xs => simpa [mergeValue, hHere.2, union, eq_comm] using h
      | _ => simp [Typed] at hCurrent
  | null => exact absurd rfl hNull
  | _ => simp [Typed] at hValue

theorem mergeValue_dict {current result : Option Val} {here ks : Path} {k : String} {value : Val}
    (hHere : here ∈ noNull) (hCurrent : Typed current (k :: ks))
    (hValue : Typed (some value) (k :: ks)) (h : mergeValue current here value = .ok result) :
    ∃ layer, value = .dict layer ∧
      ((∃ base merged, current = some (.dict base) ∧ mergeItems base layer here = .ok merged ∧
          result = some (.dict merged)) ∨
        ((current = none ∨ current = some .null) ∧ result = some (.dict layer))) := by
  have hNull := mergeValue_ne_null hHere h
  cases value with
  | dict layer =>
    refine ⟨layer, rfl, ?_⟩
    cases current with
    | none => exact .inr ⟨.inl rfl, by simpa [mergeValue, eq_comm] using h⟩
    | some current =>
      cases current with
      | null => exact .inr ⟨.inr rfl, by simpa [mergeValue, eq_comm] using h⟩
      | dict base =>
        rw [mergeValue] at h
        cases hItems : mergeItems base layer here with
        | error message => simp [hItems, Except.map] at h
        | ok merged => exact .inl ⟨base, merged, rfl, hItems, by simpa [hItems, Except.map, eq_comm] using h⟩
      | _ => simp [Typed] at hCurrent
  | null => exact absurd rfl hNull
  | _ => simp [Typed] at hValue

/-- One layer's value at a guarded path ends as the union of both sides. -/
theorem entries_mergeValue {ks : Path} {current result : Option Val} {here : Path} {value : Val}
    (hHere : Guarded here ks) (hCurrent : Typed current ks) (hValue : Typed (some value) ks)
    (hKeys : value.UniqueKeys) (h : mergeValue current here value = .ok result) :
    entries result ks = union (entries current ks) (entries (some value) ks) ∧ Typed result ks := by
  induction ks generalizing current result here value with
  | nil =>
    obtain ⟨ys, rfl, rfl⟩ := mergeValue_list hHere hCurrent hValue h
    cases hEntries : entries current [] with
    | none => exact ⟨rfl, hValue⟩
    | some xs =>
      have hList : current = some (.list xs) := by
        cases current with
        | none => simp at hEntries
        | some current => cases current <;> simp_all [entries]
      subst hList
      refine ⟨rfl, fun x hx => ?_⟩
      rcases List.mem_append.mp (List.mem_eraseDups.mp hx) with hx | hx
      · exact hCurrent x hx
      · exact hValue x hx
  | cons k ks ih =>
    obtain ⟨layer, rfl, ⟨base, merged, rfl, hItems, rfl⟩ | ⟨hEmpty, rfl⟩⟩ :=
      mergeValue_dict hHere.1 hCurrent hValue h
    · have hKey := get_mergeItems hKeys.1 hItems k
      cases hGet : get layer k with
      | none =>
        simp only [hGet] at hKey
        simp only [entries_dict, hGet, entries_none, union_none, hKey, true_and]
        simpa [Typed, hKey] using hCurrent
      | some inner =>
        simp only [hGet] at hKey
        have hInner : Typed (some inner) ks := by simpa [Typed, hGet] using hValue
        have hResult := ih hHere.2 (by simpa [Typed] using hCurrent) hInner (hKeys.of_get hGet) hKey
        simpa [entries_dict, hGet, Typed] using hResult
    · rcases hEmpty with rfl | rfl
      · exact ⟨by simp, hValue⟩
      · exact ⟨by simp, hValue⟩

/-- A `null` on a path of `noNull` over an inherited value is refused, at whatever depth it sits. -/
theorem mergeValue_null_error {q here : Path} {current : Option Val} {value v : Val}
    (hPath : here ++ q ∈ noNull) (hKeys : value.UniqueKeys) (hNull : value.lookup q = some .null)
    (hInherited : (current.bind fun c => c.lookup q) = some v) :
    ∃ message, mergeValue current here value = .error message := by
  induction q generalizing current here value with
  | nil =>
    simp only [Val.lookup_nil, Option.some.injEq] at hNull
    subst hNull
    exact ⟨_, by rw [mergeValue, if_pos (by simpa using hPath)]⟩
  | cons k q ih =>
    obtain ⟨c, rfl, hBase⟩ := Option.bind_eq_some_iff.mp hInherited
    cases c with
    | dict base =>
      cases value with
      | dict layer =>
        obtain ⟨inner, hGet, hInner⟩ := Option.bind_eq_some_iff.mp hNull
        have hStep : ∃ message, mergeValue (get base k) (here ++ [k]) inner = .error message :=
          ih (by simpa using hPath) (hKeys.of_get hGet) hInner hBase
        obtain ⟨message, hError⟩ := hStep
        rw [mergeValue]
        cases hItems : mergeItems base layer here with
        | error message => exact ⟨message, rfl⟩
        | ok merged =>
          have hKey := get_mergeItems hKeys.1 hItems k
          simp [hGet, hError] at hKey
      | _ => simp [Val.lookup] at hNull
    | _ => simp [Val.lookup] at hBase

/-! ## From one layer to the whole stack -/

/-- A document whose keys are unique and whose rule lists are absent, `null` or of their type. -/
structure WellTyped (d : Dict) : Prop where
  keys : (Val.dict d).UniqueKeys
  lists : ∀ p ∈ unionLists, Typed (some (.dict d)) p

theorem mergeLayer_union {base layer merged : Dict} (hKeys : (Val.dict layer).UniqueKeys) {p : Path}
    (hp : p ∈ unionLists) (hBase : Typed (some (.dict base)) p)
    (hLayer : Typed (some (.dict layer)) p) (h : mergeLayer base layer [] = .ok merged) :
    entries (some (.dict merged)) p =
        union (entries (some (.dict base)) p) (entries (some (.dict layer)) p) ∧
      Typed (some (.dict merged)) p := by
  have hGuarded : ∀ p ∈ unionLists, Guarded (p.take 1) (p.drop 1) ∧ p ≠ [] := by decide
  obtain ⟨hHere, hNil⟩ := hGuarded p hp
  obtain ⟨k, ks, rfl⟩ := List.exists_cons_of_ne_nil hNil
  have hKey := get_mergeItems hKeys.1 h k
  cases hGet : get layer k with
  | none =>
    simp only [hGet] at hKey
    simp only [entries_dict, hGet, entries_none, union_none, hKey, true_and]
    simpa [Typed, hKey] using hBase
  | some value =>
    simp only [hGet] at hKey
    have hValue : Typed (some value) ks := by simpa [Typed, hGet] using hLayer
    have hResult := entries_mergeValue hHere (by simpa [Typed] using hBase) hValue
      (hKeys.of_get hGet) hKey
    simpa [entries_dict, hGet, Typed] using hResult

/-- What a stack of lists unions to: a list no other joins stays as written. -/
def unionAll (current : Option (List Val)) (lists : List (List Val)) : Option (List Val) :=
  lists.foldl (fun acc xs => union acc (some xs)) current

theorem unionAll_some (xs : List Val) (lists : List (List Val)) :
    unionAll (some xs) lists =
      some (if lists = [] then xs else (xs ++ lists.flatten).eraseDups) := by
  induction lists generalizing xs with
  | nil => rfl
  | cons ys lists ih =>
    have hStep : unionAll (some xs) (ys :: lists) = unionAll (some (xs ++ ys).eraseDups) lists := rfl
    rw [hStep, ih, if_neg (List.cons_ne_nil ys lists)]
    split
    · simp_all
    · rw [eraseDups_eraseDups_append, List.flatten_cons, List.append_assoc]

theorem mergeAll_union {base merged : Dict} {layers : List Dict} {p : Path} (hp : p ∈ unionLists)
    (hBase : Typed (some (.dict base)) p) (hLayers : ∀ d ∈ layers, WellTyped d)
    (h : mergeAll base layers = .ok merged) :
    entries (some (.dict merged)) p =
      unionAll (entries (some (.dict base)) p)
        (layers.filterMap fun d => entries (some (.dict d)) p) := by
  induction layers generalizing base with
  | nil =>
    cases h
    rfl
  | cons layer layers ih =>
    obtain ⟨hLayer, hLayers⟩ := List.forall_mem_cons.mp hLayers
    rw [mergeAll] at h
    cases hNext : mergeLayer base layer [] with
    | error message => simp [hNext] at h
    | ok next =>
      simp only [hNext] at h
      obtain ⟨hEntries, hTyped⟩ :=
        mergeLayer_union hLayer.keys hp hBase (hLayer.lists p hp) hNext
      rw [ih hTyped hLayers h, hEntries]
      cases hOwn : entries (some (.dict layer)) p with
      | none => rw [List.filterMap_cons_none (by exact hOwn), union_none]
      | some ys =>
        rw [List.filterMap_cons_some (by exact hOwn)]
        rfl

theorem mergeAll_null_error {base before layer : Dict} {earlier later : List Dict} {q : Path} {v : Val}
    (hBefore : mergeAll base earlier = .ok before) (hq : q ∈ noNull)
    (hKeys : (Val.dict layer).UniqueKeys) (hNull : (Val.dict layer).lookup q = some .null)
    (hInherited : (Val.dict before).lookup q = some v) :
    ∃ message, mergeAll base (earlier ++ layer :: later) = .error message := by
  induction earlier generalizing base with
  | nil =>
    cases hBefore
    cases q with
    | nil => exact absurd hq (by decide)
    | cons k q =>
      obtain ⟨value, hGet, hValue⟩ := Option.bind_eq_some_iff.mp hNull
      have hStep : ∃ message, mergeValue (PyValue.get before k) [k] value = .error message :=
        mergeValue_null_error hq (hKeys.of_get hGet) hValue hInherited
      obtain ⟨message, hError⟩ := hStep
      rw [List.nil_append, mergeAll]
      cases hItems : mergeLayer before layer [] with
      | error message => exact ⟨message, rfl⟩
      | ok merged =>
        have hKey := get_mergeItems hKeys.1 hItems k
        simp [hGet, hError] at hKey
  | cons first earlier ih =>
    rw [mergeAll] at hBefore
    rw [List.cons_append, mergeAll]
    cases hNext : mergeLayer base first [] with
    | error message => exact ⟨message, rfl⟩
    | ok next =>
      simp only [hNext] at hBefore
      exact ih hBefore

/-- Everything the merge reads, weakest first: the shared groups, the platform block, the layers. -/
def sources (defaults : Option Dict) (layers : List Dict) : List Dict :=
  sharedGroups defaults :: ((platformBlock defaults layers).toList ++ layers)

/-- No layer drops a team-wide secret or redaction rule. Each source's entries reach the merged list,
in first-seen order; the list repeats an entry only where one source alone supplies it, and a `null`
over an inherited value raises. -/
theorem mergeDefaults_keeps_rules (defaults : Option Dict) (layers : List Dict)
    (hTyped : ∀ d ∈ sources defaults layers, WellTyped d) :
    (∀ merged, mergeDefaults defaults layers = .ok merged → ∀ p ∈ unionLists,
      let lists := (sources defaults layers).filterMap fun d => entries (some (.dict d)) p
      let result := (entries (some (.dict merged)) p).getD []
      (∀ xs ∈ lists, ∀ x ∈ xs, x ∈ result) ∧ result.eraseDups = lists.flatten.eraseDups ∧
        (lists = [result] ∨ result.Nodup)) ∧
    ∀ earlier layer later before q v,
      (platformBlock defaults layers).toList ++ layers = earlier ++ layer :: later →
      mergeAll (sharedGroups defaults) earlier = .ok before → q ∈ noNull →
      (Val.dict layer).lookup q = some .null → (Val.dict before).lookup q = some v →
      ∃ message, mergeDefaults defaults layers = .error message := by
  obtain ⟨hShared, hLayers⟩ := List.forall_mem_cons.mp hTyped
  constructor
  · intro merged h p hp lists result
    have hUnion := mergeAll_union hp (hShared.lists p hp) hLayers h
    -- The whole stack is the shared groups' list followed by what the later sources add.
    have hResult : (lists = [] ∧ result = []) ∨ lists = [result] ∨
        result = lists.flatten.eraseDups := by
      simp only [lists, result, sources, hUnion]
      cases hOwn : entries (some (.dict (sharedGroups defaults))) p with
      | some xs =>
        rw [List.filterMap_cons_some (by exact hOwn), unionAll_some]
        split
        · simp_all
        · exact .inr (.inr rfl)
      | none =>
        rw [List.filterMap_cons_none (by exact hOwn)]
        cases hRest : ((platformBlock defaults layers).toList ++ layers).filterMap
            (fun d => entries (some (.dict d)) p) with
        | nil => exact .inl ⟨rfl, rfl⟩
        | cons ys rest =>
          have hStep : unionAll none (ys :: rest) = unionAll (some ys) rest := rfl
          rw [hStep, unionAll_some]
          split
          · simp_all
          · exact .inr (.inr rfl)
    rcases hResult with ⟨hLists, hNil⟩ | hOne | hMany
    · rw [hLists, hNil]
      simp
    · rw [hOne]
      simp
    · rw [hMany]
      refine ⟨fun xs hxs x hx => ?_, eraseDups_eq_self (nodup_eraseDups _), .inr (nodup_eraseDups _)⟩
      exact List.mem_eraseDups.mpr (List.mem_flatten.mpr ⟨xs, hxs, hx⟩)
  · intro earlier layer later before q v hSplit hBefore hq hNull hInherited
    have hLayer : layer ∈ (platformBlock defaults layers).toList ++ layers := by simp [hSplit]
    rw [mergeDefaults, hSplit]
    exact mergeAll_null_error hBefore hq (hLayers layer hLayer).keys hNull hInherited

def secretsDoc (names : List String) : Dict :=
  [("evidence", .dict [("secrets", .list (names.map .str))])]

theorem secretsDoc_wellTyped (names : List String) : WellTyped (secretsDoc names) where
  keys := by
    have hNames : Val.UniqueKeysList (names.map .str) := by
      induction names with
      | nil => trivial
      | cons name names ih => exact ⟨trivial, ih⟩
    simp [secretsDoc, Val.UniqueKeys, Val.UniqueKeysItems, hNames]
  lists p hp := by
    simp only [unionLists, List.mem_cons, List.not_mem_nil, or_false] at hp
    rcases hp with rfl | rfl | rfl | rfl | rfl <;> simp [secretsDoc, Typed, PyValue.get]

theorem mergeDefaults_keeps_rules_secrets :
    Val.str "TEAM" ∈ (entries (some (.dict (secretsDoc ["TEAM", "OWN"]))) ["evidence", "secrets"]).getD [] ∧
      Val.str "OWN" ∈
        (entries (some (.dict (secretsDoc ["TEAM", "OWN"]))) ["evidence", "secrets"]).getD [] := by
  have hSources : sources (some (secretsDoc ["TEAM"])) [secretsDoc ["OWN", "TEAM"]] =
      [secretsDoc ["TEAM"], secretsDoc ["OWN", "TEAM"]] := rfl
  have hKeeps := mergeDefaults_keeps_rules (some (secretsDoc ["TEAM"])) [secretsDoc ["OWN", "TEAM"]]
    (by
      rw [hSources]
      intro d hd
      simp only [List.mem_cons, List.not_mem_nil, or_false] at hd
      rcases hd with rfl | rfl <;> exact secretsDoc_wellTyped _)
  have hEntries := (hKeeps.1 (secretsDoc ["TEAM", "OWN"]) rfl ["evidence", "secrets"] (by decide)).1
  constructor
  · apply hEntries [.str "TEAM"]
    · exact List.mem_filterMap.mpr ⟨secretsDoc ["TEAM"], by simp [hSources], rfl⟩
    · simp
  · apply hEntries [.str "OWN", .str "TEAM"]
    · exact List.mem_filterMap.mpr ⟨secretsDoc ["OWN", "TEAM"], by simp [hSources], rfl⟩
    · simp

/-- A list that one document alone supplies is kept as written, repetitions included. -/
theorem mergeDefaults_repeats_single_list :
    ¬ ∀ (defaults : Option Dict) (layers : List Dict) (merged : Dict),
      (∀ d ∈ sources defaults layers, WellTyped d) → mergeDefaults defaults layers = .ok merged →
      ∀ p ∈ unionLists, ((entries (some (.dict merged)) p).getD []).Nodup := by
  intro hAll
  have hNodup := hAll (some (secretsDoc ["A", "A"])) [] (secretsDoc ["A", "A"])
    (fun d hd => by
      rw [List.mem_singleton.mp hd]
      exact secretsDoc_wellTyped _)
    rfl ["evidence", "secrets"] (by decide)
  exact absurd hNodup (by decide)

end Bajutsu.Config
