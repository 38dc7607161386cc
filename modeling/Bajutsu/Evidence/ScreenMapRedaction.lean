import Bajutsu.Evidence.EvidenceRedactor
import Bajutsu.Lib.PyValue

/-!
# Redaction of a crawl's screen map

A serialized action keeps what it targets and the text it entered. The two element defaults are keyed on the
action's own target, label and secure flag, and the text is masked where one of them applies.
-/

namespace Bajutsu.Evidence.EvidenceRedactor

open PyValue

/-- Truth of a Python value. -/
def truthy : Val → Bool
  | .null => false
  | .bool b => b
  | .int i => i ≠ 0
  | .float f => f ≠ .fin 0
  | .str s => s ≠ ""
  | .list xs => !xs.isEmpty
  | .tuple xs => !xs.isEmpty
  | .dict kvs => !kvs.isEmpty

/-- A field as text, or nothing when it is absent or another type. -/
def asStr : Option Val → Option String
  | some (.str s) => some s
  | _ => none

variable (rt : Runtime) (self : EvidenceRedactor)

def redactString (text : String) : String := String.ofList (self.toRedactor.redactText rt text.toList)

/-- Whether a default masks the text entered into a field of this identifier and label. -/
def masksEntered (identifier label : Option String) (secure : Bool) : Bool :=
  self.masksByDefault (.plain rt.word) rt (identifier.map String.toList) (label.map String.toList)
    (if secure then [secureTextField] else [])

def enteredText (masked : Bool) (text : String) : String := if masked then placeholder else self.redactString rt text

/-- One `[id, value]` pair of a fill action. -/
def redactPair (actionMasked : Bool) : Val → Val
  | .list [fid, .str value] =>
    .list [fid, .str (self.enteredText rt (actionMasked || self.masksEntered rt (asStr (some fid)) none false) value)]
  | field => field

def redactActionValue (masked : Bool) (out : List (String × Val)) : List (String × Val) :=
  match get out "value" with
  | some (.str value) => set out "value" (.str (self.enteredText rt masked value))
  | _ => out

def redactActionFields (masked : Bool) (out : List (String × Val)) : List (String × Val) :=
  match get out "fields" with
  | some (.list fields) => set out "fields" (.list (fields.map (self.redactPair rt masked)))
  | _ => out

def redactAction : Val → Val
  | .dict out =>
    let masked := self.masksEntered rt (asStr (get out "target")) (asStr (get out "label"))
      (((get out "secure").map truthy).getD false)
    .dict (self.redactActionFields rt masked (self.redactActionValue rt masked out))
  | action => action

def redactActions : Val → Val
  | .list actions => .list (actions.map (self.redactAction rt))
  | actions => actions

def redactActionList (key : String) : Val → Val
  | .dict holder => .dict (set holder key (self.redactActions rt ((get holder key).getD .null)))
  | holder => holder

def redactHolders (entry key : String) (out : List (String × Val)) : List (String × Val) :=
  match get out entry with
  | some (.list holders) => set out entry (.list (holders.map (self.redactActionList rt key)))
  | _ => out

def redactPaths (out : List (String × Val)) : List (String × Val) :=
  match get out "paths" with
  | some (.dict paths) => set out "paths" (.dict (paths.map fun item => (item.1, self.redactActions rt item.2)))
  | _ => out

def redactScreenMap (screenMap : List (String × Val)) : List (String × Val) :=
  self.redactHolders rt "pruned" "path" (self.redactPaths rt (self.redactHolders rt "crashes" "actions" screenMap))

end Bajutsu.Evidence.EvidenceRedactor
