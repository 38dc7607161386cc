import Bajutsu.Lib.PyValue
import Mathlib.Data.List.Sort
import Mathlib.Order.Lattice

/-!
# Recorded actions and the screen map

An action is a replayable step of a crawl. A screen map keeps action lists in three places: the crashes, the paths
to the screens, and the pruned operations.
-/

namespace Bajutsu.Crawl

open PyValue

inductive ActionKind where
  | tap
  | type
  | fill
  | tapPoint
  | other (name : String)
  deriving DecidableEq

def ActionKind.text : ActionKind → String
  | tap => "tap"
  | type => "type"
  | fill => "fill"
  | tapPoint => "tap_point"
  | other name => name

structure Action where
  kind : ActionKind
  target : String := ""
  label : Option String := none
  index : Option Int := none
  value : Option String := none
  fields : List (String × String) := []
  point : Option (PyFloat × PyFloat) := none
  secure : Bool := false
  deriving DecidableEq

/-- What a crawl enters into a field. -/
def valueForField (lower : List Char → List Char) (hint : String) (secure : Bool) : String :=
  if "mail".toList <:+: lower hint.toList then "test@example.com"
  else if secure then "Test1234!"
  else "test"

structure Crash where
  path : List String
  actions : List Action

structure Pruned where
  src : String
  action : String
  key : String
  owner : String
  path : List Action

/-- The parts of a screen map that hold actions. -/
structure Recorded where
  crashes : List Crash
  paths : List (String × List Action)
  pruned : List Pruned

def entry (key : String) (value : Option Val) : List (String × Val) := (value.map fun v => (key, v)).toList

def pairDict (field : String × String) : Val := .list [.str field.1, .str field.2]

/-- `action_to_dict`: the empty fields are omitted. -/
def actionToDict (a : Action) : List (String × Val) :=
  [("kind", .str a.kind.text)] ++ entry "target" (if a.target = "" then none else some (.str a.target)) ++
    entry "label" (a.label.map .str) ++ entry "index" (a.index.map .int) ++ entry "value" (a.value.map .str) ++
    entry "fields" (if a.fields = [] then none else some (.list (a.fields.map pairDict))) ++
    entry "point" (a.point.map fun p => .list [.float p.1, .float p.2]) ++
    entry "secure" (if a.secure then some (.bool true) else none)

def actionsDict (actions : List Action) : Val := .list (actions.map fun a => .dict (actionToDict a))

def Crash.dict (c : Crash) : Val := .dict [("path", .list (c.path.map .str)), ("actions", actionsDict c.actions)]

def Pruned.dict (p : Pruned) : Val :=
  .dict [("src", .str p.src), ("action", .str p.action), ("key", .str p.key), ("owner", .str p.owner),
    ("path", actionsDict p.path)]

/-- The entries of `screenmap_dict` that hold actions, the paths sorted by fingerprint. -/
def screenmapDict (m : Recorded) : List (String × Val) :=
  [("crashes", .list (m.crashes.map Crash.dict)),
    ("paths", .dict ((m.paths.insertionSort fun a b => a.1 ≤ b.1).map fun item => (item.1, actionsDict item.2))),
    ("pruned", .list (m.pruned.map Pruned.dict))]

section Dictionary

variable (a : Action)

theorem get_append (d more : List (String × Val)) (k : String) : get (d ++ more) k = (get d k).or (get more k) := by
  induction d with
  | nil => rfl
  | cons item d ih =>
    rw [List.cons_append, PyValue.get, PyValue.get]
    split
    · rfl
    · exact ih

theorem get_entry (key : String) (value : Option Val) (k : String) :
    get (entry key value) k = if key = k then value else none := by
  cases value with
  | none => simp [entry]
  | some v => simp [entry, PyValue.get]

theorem get_value : get (actionToDict a) "value" = a.value.map .str := by
  simp [actionToDict, get_append, get_entry, PyValue.get]

theorem get_fields :
    get (actionToDict a) "fields" = if a.fields = [] then none else some (.list (a.fields.map pairDict)) := by
  simp [actionToDict, get_append, get_entry, PyValue.get]

theorem get_target : get (actionToDict a) "target" = if a.target = "" then none else some (.str a.target) := by
  simp [actionToDict, get_append, get_entry, PyValue.get]

theorem get_label : get (actionToDict a) "label" = a.label.map .str := by
  simp [actionToDict, get_append, get_entry, PyValue.get]

theorem get_secure : get (actionToDict a) "secure" = if a.secure then some (.bool true) else none := by
  simp [actionToDict, get_append, get_entry, PyValue.get]

end Dictionary

end Bajutsu.Crawl
