import Bajutsu.Drivers.PositionPath
import Bajutsu.Lib.RoseTree

/-!
# The addresses in a flattened snapshot

The runner flattens the tree of one snapshot and records each element with its position path, along which it is found again
when it is acted on. A subtree may be pruned, and its siblings keep their indices.
-/

namespace Bajutsu.OnDevice

open Drivers (RecordedAttributes Frame)

abbrev PositionPath : Type := List Nat

inductive ElementRoot where
  | app
  | safariViewService
  deriving DecidableEq

structure PositionPathBacking (N : Type) where
  path : PositionPath
  recorded : RecordedAttributes N
  root : ElementRoot

structure ElementSnapshot (N : Type) where
  identifier : Option String
  label : Option String
  value : Option String
  traits : List String
  frame : Frame N
  backingElement : PositionPathBacking N

/-- What a node answers of itself. Nodes that answer the same are not one object, which `itself` keeps apart. -/
structure NodeFields (H N : Type) where
  itself : H
  nodeIdentifier : Option String
  nodeLabel : Option String
  nodeValue : Option String
  nodeTraits : List String
  nodeFrame : Frame N

abbrev SnapshotNode (H N : Type) : Type := RoseTree (NodeFields H N)

section Flatten

variable {H N : Type}

def recordedOf (node : SnapshotNode H N) : RecordedAttributes N where
  identifier := node.label.nodeIdentifier
  label := node.label.nodeLabel
  value := node.label.nodeValue
  traits := node.label.nodeTraits
  frame := node.label.nodeFrame

def elementSnapshot (elementRoot : ElementRoot) (node : SnapshotNode H N) (path : PositionPath) : ElementSnapshot N :=
  let recorded := recordedOf node
  { identifier := recorded.identifier
    label := recorded.label
    value := recorded.value
    traits := recorded.traits
    frame := recorded.frame
    backingElement := { path, recorded, root := elementRoot } }

section

variable (elementRoot : ElementRoot) (prune : SnapshotNode H N → Bool)

mutual

def appendDescendants : SnapshotNode H N → PositionPath → List (ElementSnapshot N) → List (ElementSnapshot N)
  | .node _ children, path, out => appendChildren path 0 children out

/-- The loop over the enumerated children, from an index on. A pruned child consumes its index. -/
def appendChildren (path : PositionPath) :
    Nat → List (SnapshotNode H N) → List (ElementSnapshot N) → List (ElementSnapshot N)
  | _, [], out => out
  | index, child :: rest, out =>
    let childPath := path ++ [index]
    appendChildren path (index + 1) rest
      (if prune child then out
        else appendDescendants child childPath (out ++ [elementSnapshot elementRoot child childPath]))

end

def flattenSnapshot (root : SnapshotNode H N) : List (ElementSnapshot N) := appendDescendants elementRoot prune root [] []

end

variable {elementRoot : ElementRoot} {prune : SnapshotNode H N → Bool}

/-! ## What is appended is what is below -/

/-- An element found below a node that stands at a path. -/
def found (elementRoot : ElementRoot) (path : PositionPath) (entry : List Nat × SnapshotNode H N) : ElementSnapshot N :=
  elementSnapshot elementRoot entry.2 (path ++ entry.1)

theorem found_cons (path : PositionPath) (index : Nat) :
    found elementRoot path ∘ Prod.map (index :: ·) id = (found elementRoot (path ++ [index]) : _ × SnapshotNode H N → _) := by
  funext entry
  simp [found]

mutual

theorem appendDescendants_eq : ∀ (node : SnapshotNode H N) (path : PositionPath) (out : List (ElementSnapshot N)),
    appendDescendants elementRoot prune node path out = out ++ (node.descendants prune).map (found elementRoot path)
  | .node _ children, path, out => appendChildren_eq path 0 children out

theorem appendChildren_eq (path : PositionPath) : ∀ (index : Nat) (children : List (SnapshotNode H N))
    (out : List (ElementSnapshot N)),
    appendChildren elementRoot prune path index children out =
      out ++ (RoseTree.descendantsFrom prune index children).map (found elementRoot path)
  | _, [], out => (List.append_nil out).symm
  | index, child :: rest, out => by
    rw [appendChildren, appendChildren_eq path (index + 1) rest, RoseTree.descendantsFrom, List.map_append, ← List.append_assoc]
    congr 1
    cases prune child with
    | true => exact (List.append_nil out).symm
    | false =>
      rw [if_neg Bool.false_ne_true, if_neg Bool.false_ne_true, appendDescendants_eq child, List.map_cons, List.map_map,
        found_cons, List.append_assoc]
      rfl

end

theorem flattenSnapshot_eq (root : SnapshotNode H N) :
    flattenSnapshot elementRoot prune root = (root.descendants prune).map (found elementRoot []) := appendDescendants_eq root [] []

theorem paths_flattenSnapshot (root : SnapshotNode H N) :
    (flattenSnapshot elementRoot prune root).map (·.backingElement.path) = (root.descendants prune).map Prod.fst := by
  rw [flattenSnapshot_eq, List.map_map]
  rfl

/-! ## Addresses -/

/-- Every node that is not pruned away stands in the list once, with the path that leads to it, in pre-order. -/
structure Addressed (elementRoot : ElementRoot) (prune : SnapshotNode H N → Bool) (root : SnapshotNode H N)
    (elements : List (ElementSnapshot N)) : Prop where
  /-- In the order of lists: before what is below it and before its later siblings. -/
  preorder : (elements.map (·.backingElement.path)).Pairwise (· < ·)
  distinct : (elements.map (·.backingElement.path)).Nodup
  complete : ∀ path, path ∈ elements.map (·.backingElement.path) ↔
    path ≠ [] ∧ (root.walk path).isSome = true ∧ root.Open prune path
  reaches : ∀ element ∈ elements, ∃ node, root.walk element.backingElement.path = some node ∧
    element = elementSnapshot elementRoot node element.backingElement.path

theorem flattenSnapshot_addressed (elementRoot : ElementRoot) (prune : SnapshotNode H N → Bool)
    (root : SnapshotNode H N) : Addressed elementRoot prune root (flattenSnapshot elementRoot prune root) where
  preorder := by
    rw [paths_flattenSnapshot]
    exact RoseTree.pairwise_descendants root
  distinct := by
    rw [paths_flattenSnapshot]
    exact (RoseTree.pairwise_descendants root).imp fun hLt => ne_of_lt hLt
  complete := by
    intro path
    rw [paths_flattenSnapshot, List.mem_map]
    constructor
    · rintro ⟨⟨_, node⟩, hMem, rfl⟩
      obtain ⟨hNe, hWalk, hOpen⟩ := RoseTree.mem_descendants_iff.mp hMem
      exact ⟨hNe, Option.isSome_iff_exists.mpr ⟨node, hWalk⟩, hOpen⟩
    · rintro ⟨hNe, hSome, hOpen⟩
      obtain ⟨node, hWalk⟩ := Option.isSome_iff_exists.mp hSome
      exact ⟨(path, node), RoseTree.mem_descendants_iff.mpr ⟨hNe, hWalk, hOpen⟩, rfl⟩
  reaches := by
    rw [flattenSnapshot_eq]
    intro element hMem
    obtain ⟨⟨path, node⟩, hBelow, rfl⟩ := List.mem_map.mp hMem
    exact ⟨node, (RoseTree.mem_descendants_iff.mp hBelow).2.1, rfl⟩

end Flatten

end Bajutsu.OnDevice
