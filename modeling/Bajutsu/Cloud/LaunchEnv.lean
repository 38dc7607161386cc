import Mathlib.Data.List.Basic
import Mathlib.Tactic.Common

/-!
# What a lifecycle hook injects

A hook before a Device Farm submit may inject launch environment variables, which are packaged with the config of the
target. A scenario's own launch environment is laid over the target's, so that the submit looks for scenarios that set an
injected variable. It parses the scenario file for that itself.
-/

namespace Bajutsu.Cloud.LaunchEnv

abbrev Text := List Char

/-- A document after its anchors and merges are resolved. A `word` is one of `yes`, `no`, `on` and `off` without quotes,
which the scenario loader reads as a text and `yaml.safe_load` as a truth value. A `binary` is one that can be decoded. -/
inductive Node where
  | text (text : Text)
  | word (text : Text) (value : Bool)
  | binary (text : Text)
  | scalar
  | seq (items : List Node)
  | map (entries : List (Node × Node))

abbrev Entries : Type := List (Node × Node)

def hasName (name : String) : Node → Bool
  | .text text => text = name.toList
  | _ => false

/-- Of two entries with one key a dictionary keeps the later. -/
def field (name : String) (entries : Entries) : Option Node := (entries.reverse.find? fun entry => hasName name entry.1).map Prod.snd

/-- A dictionary with the entries of two, of which the second goes before. -/
abbrev Env : Type := List (Text × Text)

def Env.get (env : Env) (key : Text) : Option Text := (env.reverse.find? (·.1 = key)).map Prod.snd

def Env.keys (env : Env) : List Text := env.map Prod.fst

/-! ## `load_scenario_file` -/

structure Scenario where
  launchEnv : Env

/-- A field of the schema that is a mapping and may be left out. -/
def group (name : String) (entries : Entries) : Option Entries :=
  match field name entries with
  | none => some []
  | some (.map inner) => some inner
  | some _ => none

/-- A `str` of the schema. -/
def str : Node → Option Text
  | .text text | .word text _ | .binary text => some text
  | _ => none

/-- What is no mapping, be it empty or not, has no field. -/
def within (name : String) : Option Node → Option Node
  | some (.map entries) => field name entries
  | _ => none

/-- The keys the check goes through. An environment that is no mapping is one that the loader rejects. -/
def launchEnvKeys (scenario : Node) : List Node :=
  match within "env" (within "launch" (within "subject" (within "preconditions" (some scenario)))) with
  | some (.map env) => env.map Prod.fst
  | _ => []

def isInjected (injected : Env) : Node → Bool
  | .text key => key ∈ injected.keys
  | _ => false

structure Collision where
  key : Node
  scenario : Option Node

def checkScenario (injected : Env) (scenario : Node) : Except Collision Unit :=
  match (launchEnvKeys scenario).find? (isInjected injected) with
  | some key => .error { key, scenario := within "name" (some scenario) }
  | none => .ok ()

def checkLaunchEnvCollisions (injected : Env) : Node → Except Collision Unit
  | .seq scenarios => scenarios.forM (checkScenario injected)
  | _ => .ok ()

/-! ## `submit` -/

/-- The target's launch environment in the packaged config. -/
def withLaunchEnv (document : Node) (config injected : Env) : Except Collision Env := do
  checkLaunchEnvCollisions injected document
  return config ++ injected

inductive Submitted where
  | raised (error : Collision) (uploads : List Env)
  | uploaded (package : Env)

def submit (document : Node) (config injected : Env) : Submitted :=
  if injected = [] then .uploaded config
  else
    match withLaunchEnv document config injected with
    | .error error => .raised error []
    | .ok package => .uploaded package

variable {name : String} {entries : Entries} {scenario : Node} {loaded : Scenario} {injected : Env} {key : Text}

theorem within_nil : within name (some (.map [])) = none := rfl

theorem get_append {base later : Env} : Env.get (base ++ later) key = (later.get key).or (base.get key) := by
  simp only [Env.get, List.reverse_append, List.find?_append]
  cases later.reverse.find? (·.1 = key) <;> rfl

end Bajutsu.Cloud.LaunchEnv
