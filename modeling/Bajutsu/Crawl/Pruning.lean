import Bajutsu.Crawl.Coordinator
import Bajutsu.Lib.JoinedText

/-!
# Pruning an operation that another screen claimed

An operation is known by its replay key. An operation is pruned from a screen when an earlier screen kept one with the
same key, and keys that are spelled from plain parts tell apart what the operations address.
-/

namespace Bajutsu.Crawl.Pruning

open PyValue Coordinator JoinedText

/-! ## What an operation addresses -/

/-- The fields of a fill, a point to four decimals, an identifier, or a label with an index. -/
inductive Address where
  | fields (ids : List String)
  | point (x y : String)
  | target (id : String)
  | label (text : Option String) (index : Int)

def address (spelling : Spelling) (a : Action) : Address :=
  match a.kind, a.point with
  | .fill, _ => .fields (a.fields.map Prod.fst)
  | .tapPoint, some (x, y) => .point (spelling.fixed 4 x) (spelling.fixed 4 y)
  | _, _ => if a.target = "" then .label a.label (a.index.getD 0) else .target a.target

def Address.key : Address → String
  | fields ids => "fill:" ++ String.intercalate "," ids
  | point x y => "@@" ++ x ++ "," ++ y
  | target id => id
  | label text index => "@" ++ text.getD "None" ++ "#" ++ toString index

/-- No part of the address reads as a piece of a key: the identifiers of a fill hold no comma, an identifier is not
spelled as another form of key, and a label is there. -/
def Address.Plain : Address → Prop
  | fields ids => ids ≠ [] ∧ ∀ id ∈ ids, ',' ∉ id.toList
  | point x _ => ',' ∉ x.toList
  | target id => id.toList.head? ≠ some '@' ∧ ¬"fill:".toList <+: id.toList
  | label text _ => ∃ shown, text = some shown ∧ shown.toList.head? ≠ some '@'

section Keys

variable {ids : List String} {x y id : String} {label : Option String} {index : Int}

end Keys

/-- The two ways a screen is published: by the bootstrap, and once it is discovered. -/
inductive Call where
  | publish (node : Node) (actions : List Action)
  | finishDiscovery (node : Node) (actions : List Action)

def Call.node : Call → Node
  | publish node _ => node
  | finishDiscovery node _ => node

def Call.actions : Call → List Action
  | publish _ actions => actions
  | finishDiscovery _ actions => actions

/-- What a call leaves of the coordinator, and the screen's frontier. -/
def step (settings : Settings) (c : Coordinator) : Call → Coordinator × List Action
  | .publish node actions => ((c.publish settings node actions).2, (c.publish settings node actions).1)
  | .finishDiscovery node actions => c.finishDiscovery settings node actions

/-- A screen that was published, with the actions it kept. -/
structure Publication where
  screen : String
  kept : List Action

/-- The coordinator after a sequence of calls, and what they published. -/
def run (settings : Settings) (c : Coordinator) : List Call → Coordinator × List Publication
  | [] => (c, [])
  | call :: calls =>
    let (next, kept) := step settings c call
    let (fin, published) := run settings next calls
    (fin, ⟨call.node.fingerprint, kept⟩ :: published)

/-- The screen was published with an action of that key among those it kept. -/
def Owns (spelling : Spelling) (published : List Publication) (key owner : String) : Prop :=
  ∃ entry ∈ published, entry.screen = owner ∧ ∃ b ∈ entry.kept, b.key spelling = key

section Claims

variable {settings : Settings} {c : Coordinator} {published : List Publication}

/-- The claims of a coordinator are those of the publications. -/
def Claims (spelling : Spelling) (claimed : List (String × String)) (published : List Publication) : Prop :=
  ∀ key owner, get claimed key = some owner → Owns spelling published key owner

theorem Owns.mono {spelling : Spelling} {key owner : String} (h : Owns spelling published key owner)
    (more : List Publication) : Owns spelling (published ++ more) key owner := by
  obtain ⟨entry, hMem, hOwner⟩ := h
  exact ⟨entry, List.mem_append_left more hMem, hOwner⟩

end Claims

end Bajutsu.Crawl.Pruning
