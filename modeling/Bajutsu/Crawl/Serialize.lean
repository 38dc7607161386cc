import Bajutsu.Crawl.Coordinator
import Bajutsu.Evidence.ScreenMapRedaction
import Bajutsu.Lib.JsonValue

/-!
# A screen map as JSON

A map is written with its empty fields left out and its pairs as lists. It is read back from what JSON makes of that,
where every missing field has a default.
-/

namespace Bajutsu.Crawl.Serialize

open PyValue Evidence.EvidenceRedactor

abbrev Rect := PyFloat × PyFloat × PyFloat × PyFloat

/-- A screen with the rectangle that each of its actions taps. -/
structure Node extends Crawl.Node where
  targets : List (String × Rect) := []

/-- A screen map; each of its three dictionaries names a key once. -/
structure ScreenMap where
  nodes : List (String × Node) := []
  edges : List Edge := []
  crashes : List Crash := []
  alerts : List Alert := []
  plan : List (String × List String) := []
  pruned : List Pruned := []
  paths : List (String × List Action) := []
  stopReason : String := ""
  nodesKeys : (nodes.map Prod.fst).Nodup := by simp
  planKeys : (plan.map Prod.fst).Nodup := by simp
  pathsKeys : (paths.map Prod.fst).Nodup := by simp

/-! ## Writing -/

def strings (texts : List String) : Val := .list (texts.map .str)

def rectDict (r : Rect) : Val := .list [.float r.1, .float r.2.1, .float r.2.2.1, .float r.2.2.2]

def nodeDict (n : Node) : Val :=
  .dict [("fingerprint", .str n.fingerprint), ("kind", .str n.kind), ("ids", strings n.ids),
    ("actions", strings n.actions), ("blocked", strings n.blocked),
    ("targets", .dict ((dictOf n.targets).map fun item => (item.1, rectDict item.2)))]

def edgeDict (e : Edge) : Val :=
  .dict [("src", .str e.src), ("action", .str e.action), ("dst", .str e.dst), ("alert", strings e.alert)]

def alertDict (a : Alert) : Val := .dict [("path", strings a.path), ("buttons", strings a.buttons)]

def sortedItems {β : Type} (items : List (String × β)) : List (String × β) := items.insertionSort fun a b => a.1 ≤ b.1

def screenmapDict (m : ScreenMap) : Val :=
  .dict [
    ("nodes", .list (((m.nodes.map Prod.snd).insertionSort fun a b => a.fingerprint ≤ b.fingerprint).map nodeDict)),
    ("edges", .list (m.edges.map edgeDict)),
    ("crashes", .list (m.crashes.map Crash.dict)),
    ("alerts", .list (m.alerts.map alertDict)),
    ("plan", .dict ((sortedItems m.plan).map fun item => (item.1, strings item.2))),
    ("paths", .dict ((sortedItems m.paths).map fun item => (item.1, actionsDict item.2))),
    ("pruned", .list (m.pruned.map Pruned.dict)),
    ("stop_reason", .str m.stopReason)]

/-! ## Reading -/

/-- `str` of a value that is not a string, and `float` of one that is not a float; the second may raise. -/
structure Builtins where
  str : Val → String
  float : Val → Option PyFloat

def Builtins.toStr (py : Builtins) : Val → String
  | .str s => s
  | v => py.str v

def Builtins.toFloat (py : Builtins) : Val → Option PyFloat
  | .float f => some f
  | v => py.float v

/-- `v or other`. -/
def orElse (v : Option Val) (other : Val) : Val := (v.filter truthy).getD other

def items : Val → Option (List (String × Val))
  | .dict d => some d
  | _ => none

/-- The elements a loop over the value sees. -/
def elements : Val → Option (List Val)
  | .list xs | .tuple xs => some xs
  | .dict d => some (d.map fun item => .str item.1)
  | .str s => some (s.toList.map fun c => .str c.toString)
  | _ => none

/-- `v[i]`. -/
def index (v : Val) (i : Nat) : Option Val :=
  match v with
  | .list xs | .tuple xs => xs[i]?
  | .str s => s.toList[i]?.map fun c => .str c.toString
  | _ => none

def text : Val → Option String
  | .str s => some s
  | _ => none

/-- The strings of a field that is a tuple or a list of strings. -/
def texts (v : Option Val) : Option (List String) := do (← elements (orElse v (.list []))).mapM text

def optionalText : Option Val → Option (Option String)
  | none | some .null => some none
  | some (.str s) => some (some s)
  | _ => none

def optionalInt : Option Val → Option (Option Int)
  | none | some .null => some none
  | some (.int i) => some (some i)
  | _ => none

def ActionKind.ofText (kind : String) : ActionKind :=
  if kind = "tap" then .tap
  else if kind = "type" then .type
  else if kind = "fill" then .fill
  else if kind = "tap_point" then .tapPoint
  else .other kind

section

variable (py : Builtins)

def fieldFromDict (v : Val) : Option (String × String) := do
  return (py.toStr (← index v 0), py.toStr (← index v 1))

def pointFromDict (v : Option Val) : Option (Option (PyFloat × PyFloat)) :=
  match v.filter truthy with
  | none => some none
  | some point => do return some (← py.toFloat (← index point 0), ← py.toFloat (← index point 1))

/-- `action_from_dict`; nothing where it raises, or would leave in a field what is not of the field's type. -/
def actionFromDict (v : Val) : Option Action := do
  let d ← items v
  let fields ← (← elements (orElse (get d "fields") (.list []))).mapM (fieldFromDict py)
  return {
    kind := ActionKind.ofText (py.toStr (orElse (get d "kind") (.str "tap")))
    target := py.toStr (orElse (get d "target") (.str ""))
    label := ← optionalText (get d "label")
    index := ← optionalInt (get d "index")
    value := ← optionalText (get d "value")
    fields
    point := ← pointFromDict py (get d "point")
    secure := (get d "secure").any truthy }

def actionsFromDict (v : Option Val) : Option (List Action) := do
  (← elements (orElse v (.list []))).mapM (actionFromDict py)

def rectFromDict (r : Val) : Option Rect := do
  return (← py.toFloat (← index r 0), ← py.toFloat (← index r 1), ← py.toFloat (← index r 2), ← py.toFloat (← index r 3))

def nodeFromDict (v : Val) : Option Node := do
  let n ← items v
  let targets ← (← items (orElse (get n "targets") (.dict []))).mapM fun item => do
    return (item.1, ← rectFromDict py item.2)
  return {
    fingerprint := py.toStr (← get n "fingerprint")
    kind := py.toStr (orElse (get n "kind") (.str "id"))
    ids := ← texts (get n "ids")
    actions := ← texts (get n "actions")
    blocked := ← texts (get n "blocked")
    targets }

def prunedFromDict (v : Val) : Option Pruned := do
  let p ← items v
  return {
    src := py.toStr (← get p "src")
    action := py.toStr (← get p "action")
    key := py.toStr (← get p "key")
    owner := py.toStr (← get p "owner")
    path := ← actionsFromDict py (get p "path") }

def edgeFromDict (v : Val) : Option Edge := do
  let e ← items v
  return {
    src := py.toStr (← get e "src")
    action := py.toStr (← get e "action")
    dst := py.toStr (← get e "dst")
    alert := ← texts (get e "alert") }

def crashFromDict (v : Val) : Option Crash := do
  let c ← items v
  return { path := ← texts (get c "path"), actions := ← actionsFromDict py (get c "actions") }

def alertFromDict (v : Val) : Option Alert := do
  let a ← items v
  return { path := ← texts (get a "path"), buttons := ← texts (get a "buttons") }

/-- The loop of a list field. -/
def each {α : Type} (read : Val → Option α) (v : Option Val) : Option (List α) := do
  (← elements (orElse v (.list []))).mapM read

def screenmapFromDict (v : Val) : Option ScreenMap := do
  let data ← items v
  let nodes ← each (nodeFromDict py) (get data "nodes")
  let plan ← (← items (orElse (get data "plan") (.dict []))).mapM fun item => do
    return (item.1, ← (← elements item.2).mapM text)
  let paths ← (← items (orElse (get data "paths") (.dict []))).mapM fun item => do
    return (item.1, ← actionsFromDict py (some item.2))
  return {
    nodes := dictOf (nodes.map fun node => (node.fingerprint, node))
    edges := ← each (edgeFromDict py) (get data "edges")
    crashes := ← each (crashFromDict py) (get data "crashes")
    alerts := ← each alertFromDict (get data "alerts")
    plan := dictOf plan
    pruned := ← each (prunedFromDict py) (get data "pruned")
    paths := dictOf paths
    stopReason := py.toStr (orElse (get data "stop_reason") (.str ""))
    nodesKeys := nodup_dictOf _
    planKeys := nodup_dictOf _
    pathsKeys := nodup_dictOf _ }

end

end Bajutsu.Crawl.Serialize
