import Bajutsu.Config.Merge
import Bajutsu.Lib.TopologicalFold
import Mathlib.Data.List.Sort

/-!
# Target templates

A target's `extends` names templates, inline ones or files, which may extend others. They are expanded into the
ordered layers that are folded onto the defaults: bases first, each template once, the target's own block last.
-/

namespace Bajutsu.Config.Templates

open PyValue Fuelled

def targetKeys : List String :=
  ["platform", "subject", "runsOn", "driver", "services", "hooks", "evidence", "paths", "ai"]

def templateKeys : List String := targetKeys ++ ["extends"]

def movedTargetKeys : List (String × String) :=
  [("app", "`subject`, the thing under test; the fields inside keep their names (BE-0470)"),
    ("notify", "the top-level `notify` list, which alone says where results go; an endpoint's " ++
      "`targets:` narrows it to scenario names (BE-0473)")]

/-- A `/` or a YAML suffix marks a path. -/
def isComponentFileRef (ref : String) : Bool :=
  ref.toList.contains '/' || ".yaml".toList.isSuffixOf ref.toList || ".yml".toList.isSuffixOf ref.toList

/-- A template is known by its name, or by the path of its file. -/
inductive Key (P : Type) where
  | inline (name : String)
  | file (path : P)
  deriving DecidableEq

/-- What a message calls a layer by. -/
inductive Label where
  | file (ref : String)
  | inline (name : String)
  | target (name : String)

/-- A file that cannot be read, and one that holds no YAML. -/
inductive ReadError where
  | unreadable (text : String)
  | invalid (text : String)

/-- The files a reference may lead to, of which there are finitely many. -/
structure Files (P : Type) where
  contained : P → P → String → Except ReadError P
  parse : P → Except ReadError Val
  parent : P → P
  rebased : Dict → P → P → Dict
  existing : List P
  parse_existing : ∀ path v, parse path = .ok v → path ∈ existing

inductive Refusal where
  | badEntry (entry : Val)
  | noPath (ref : String)
  | unreadable (ref text : String)
  | invalid (text : String)
  | nameInFile (entry : String)
  | unknown (entry : String) (known : List String)
  | notMapping (label : Label)
  | cycle (path : List String)
  | badKey (label : Label) (problem : String)
  | badExtends (value : Val)
  | platforms (firstLabel : Label) (first : String) (label : Label) (platform : String)

def ReadError.refusal (ref : String) : ReadError → Refusal
  | unreadable text => .unreadable ref text
  | invalid text => .invalid text

def Label.text (repr : String → String) : Label → String
  | file ref => "template file " ++ repr ref
  | inline name => "template " ++ repr name
  | target name => "target " ++ repr name

def Refusal.message (repr : String → String) (reprVal : Val → String) (target : String) : Refusal → String
  | badEntry entry =>
    "targets." ++ target ++ ".extends: an entry must be a template name or a file path, got " ++ reprVal entry
  | noPath ref =>
    "targets." ++ target ++ ".extends: " ++ repr ref ++
      " is a template file, which resolves against the config file's directory, " ++
      "but this config was loaded without its path; name inline templates alone"
  | unreadable ref text => "targets." ++ target ++ ".extends: cannot read template file " ++ repr ref ++ ": " ++ text
  | invalid text => "targets." ++ target ++ ".extends: " ++ text
  | nameInFile entry =>
    "targets." ++ target ++ ".extends: " ++ repr entry ++
      " in a template file must be a file path: a template file has no `templates:` of its own to look a name up in"
  | unknown entry known =>
    "targets." ++ target ++ ".extends: unknown template " ++ repr entry ++ "; templates: " ++
      if ", ".intercalate known = "" then "none" else ", ".intercalate known
  | notMapping label => "targets." ++ target ++ ".extends: " ++ label.text repr ++ " must be a mapping of target keys"
  | cycle path => "targets." ++ target ++ ".extends: a template cycle: " ++ " → ".intercalate path
  | badKey label problem => "targets." ++ target ++ ".extends: " ++ label.text repr ++ ": " ++ problem
  | badExtends value =>
    "targets." ++ target ++ ".extends: must be a template name or a list of them, got " ++ reprVal value
  | platforms firstLabel first label platform =>
    "targets." ++ target ++ ": " ++ firstLabel.text repr ++ " declares platform " ++ repr first ++ " but " ++
      label.text repr ++ " declares " ++ repr platform ++ "; every layer that declares `platform` must agree"

/-- One target's expansion: the config's templates, the config file's directory, and the suite root. -/
structure Expansion (P : Type) where
  files : Files P
  target : String
  templates : Dict
  configDir : Option P
  root : Option P

/-- An entry of an `extends`, with the directory it resolves against and whether it stands in a template file. -/
structure Ref (P : Type) where
  entry : Val
  base : Option P
  inFile : Bool

/-- A template's block, the directory its own references resolve against, and whether it is a file. -/
structure Body (P : Type) where
  block : Dict
  here : Option P
  inFile : Bool

def Ref.shown {P : Type} (ref : Ref P) : String :=
  match ref.entry with
  | .str entry => entry
  | _ => ""

def Ref.label {P : Type} (ref : Ref P) : Label :=
  if isComponentFileRef ref.shown then .file ref.shown else .inline ref.shown

/-- `_key_problem`, the error of a key that moved or that no target takes. -/
def keyProblem (repr : String → String) (block : Dict) : Option String :=
  let keys := block.map Prod.fst
  match keys.find? fun k => (get movedTargetKeys k).isSome with
  | some moved => some (moved ++ " moved to " ++ (get movedTargetKeys moved).getD "")
  | none =>
    let unknown := keys.filter fun k => k ∉ templateKeys
    if unknown = [] then none
    else some ("unknown field(s) " ++ ", ".intercalate (unknown.map repr) ++ "; a template accepts " ++
      ", ".intercalate templateKeys)

/-- `_entries`, the list an `extends` stands for. -/
def entries : Option Val → Except Refusal (List Val)
  | none => .ok []
  | some .null => .ok []
  | some (.list xs) => .ok xs
  | some (.str entry) => .ok [.str entry]
  | some value => .error (.badExtends value)

section Walks

variable {P : Type} (repr : String → String) (x : Expansion P)

def suiteRoot : Option P := x.root <|> x.configDir

def readFile (ref : String) (base : Option P) : Except Refusal (P × Val × P) :=
  match base, suiteRoot x, x.configDir with
  | some base, some root, some configDir =>
    match x.files.contained root base ref with
    | .error e => .error (e.refusal ref)
    | .ok path =>
      match x.files.parse path with
      | .error e => .error (e.refusal ref)
      | .ok (.dict block) => .ok (path, .dict (x.files.rebased block (x.files.parent path) configDir), x.files.parent path)
      | .ok block => .ok (path, block, x.files.parent path)
  | _, _, _ => .error (.noPath ref)

/-- What an entry names: a file, or a name under the config's `templates`. -/
def lookUp (ref : Ref P) : Except Refusal (Key P × Val × Option P) :=
  match ref.entry with
  | .str entry =>
    if entry = "" then .error (.badEntry ref.entry)
    else if isComponentFileRef entry then
      match readFile x entry ref.base with
      | .error e => .error e
      | .ok (path, block, here) => .ok (.file path, block, some here)
    else if ref.inFile then .error (.nameInFile entry)
    else
      match get x.templates entry with
      | none => .error (.unknown entry ((x.templates.map Prod.fst).insertionSort (· ≤ ·)))
      | some block => .ok (.inline entry, block, x.configDir)
  | entry => .error (.badEntry entry)

def Key.isFile : Key P → Bool
  | inline _ => false
  | file _ => true

/-- The template an entry names, which must be a mapping. -/
def template (ref : Ref P) : Except Refusal (Key P × Body P) :=
  match lookUp x ref with
  | .error e => .error e
  | .ok (key, .dict block, here) => .ok (key, ⟨block, here, key.isFile⟩)
  | .ok _ => .error (.notMapping ref.label)

/-- The entries a template extends, once its keys are checked. -/
def parents (ref : Ref P) (body : Body P) : Except Refusal (List (Ref P)) :=
  match keyProblem repr body.block with
  | some problem => .error (.badKey ref.label problem)
  | none => (entries (get body.block "extends")).map fun vs => vs.map fun v => ⟨v, body.here, body.inFile⟩

/-- The layers so far, the platforms they declare, and the templates that are done. -/
structure Walk (P : Type) where
  layers : List Dict
  platforms : List (Label × String)
  done : List (Key P)

def declared (label : Label) (layer : Dict) : List (Label × String) :=
  match get layer "platform" with
  | some (.str platform) => [(label, platform)]
  | _ => []

def Walk.add (label : Label) (key : Key P) (layer : Dict) (walk : Walk P) : Walk P :=
  ⟨walk.layers ++ [layer], walk.platforms ++ declared label layer, walk.done ++ [key]⟩

variable [DecidableEq P]

def visit : Nat → List (Key P × String) → Ref P → Calc (Walk P) Refusal PUnit
  | 0, _, _ => outOfFuel
  | fuel + 1, chain, ref => do
    let (key, body) ← settle (template x ref)
    if key ∈ chain.map Prod.fst then settle (.error (.cycle (chain.map Prod.snd ++ [ref.shown])))
    else
      let walk ← MonadState.get
      if key ∈ walk.done then return ()
      else
        let refs ← settle (parents repr ref body)
        refs.forM (visit fuel (chain ++ [(key, ref.shown)]))
        modify (Walk.add ref.label key (pop body.block "extends"))

/-- Every layer that declares a platform must declare the first one's. -/
def agree : List (Label × String) → Except Refusal Unit
  | [] => .ok ()
  | (firstLabel, first) :: rest =>
    match rest.find? fun item => item.2 ≠ first with
    | some (label, platform) => .error (.platforms firstLabel first label platform)
    | none => .ok ()

/-- The layers of a target's block, with its own one last. -/
def expandExtends (fuel : Nat) (raw : Dict) : Option (Except Refusal (List Dict)) :=
  match entries (get raw "extends") with
  | .error e => some (.error e)
  | .ok roots =>
    match (roots.map fun v => ⟨v, x.configDir, false⟩).forM (visit repr x fuel []) (⟨[], [], []⟩ : Walk P) with
    | none => none
    | some (.error e) => some (.error e)
    | some (.ok (_, walk)) =>
      let own := pop raw "extends"
      match agree (walk.platforms ++ declared (.target x.target) own) with
      | .error e => some (.error e)
      | .ok _ => some (.ok (walk.layers ++ [own]))

end Walks

end Bajutsu.Config.Templates
