import Mathlib.Data.List.Basic
import Mathlib.Data.List.Nodup
import Mathlib.Order.Basic

/-!
# Trees and the positions in them

A position is the list of the child indices on the way from the root. In the order of lists, by which a list comes before
its extensions, positions stand as a walk meets them that sees each node before what is below it.
-/

namespace Bajutsu

inductive RoseTree (α : Type) where
  | node (label : α) (children : List (RoseTree α))

namespace RoseTree

variable {α : Type}

def label : RoseTree α → α
  | node label _ => label

def children : RoseTree α → List (RoseTree α)
  | node _ children => children

def walk (t : RoseTree α) (path : List Nat) : Option (RoseTree α) :=
  path.foldlM (fun parent index => parent.children[index]?) t

variable {t u : RoseTree α} {i : Nat} {path : List Nat}

theorem walk_nil : t.walk [] = some t := rfl

theorem walk_cons : t.walk (i :: path) = t.children[i]?.bind fun child => child.walk path := by
  rw [walk, List.foldlM_cons]
  rfl

/-- On the way to a position, from below the root on, nothing is hidden. -/
def Open (hidden : RoseTree α → Bool) (t : RoseTree α) (path : List Nat) : Prop :=
  ∀ front, front ≠ [] → front <+: path → ∀ u, t.walk front = some u → hidden u = false

variable {hidden : RoseTree α → Bool}

theorem open_nil : Open hidden t [] := fun _ hNe hPrefix => absurd (List.prefix_nil.mp hPrefix) hNe

theorem open_cons {child : RoseTree α} (hChild : t.children[i]? = some child) :
    Open hidden t (i :: path) ↔ hidden child = false ∧ Open hidden child path := by
  constructor
  · intro h
    constructor
    · apply h [i] (List.cons_ne_nil i []) ((List.prefix_cons_inj i).mpr List.nil_prefix)
      rw [walk_cons, hChild]
      rfl
    · intro front hNe hPrefix u hWalk
      apply h (i :: front) (List.cons_ne_nil i front) ((List.prefix_cons_inj i).mpr hPrefix)
      rw [walk_cons, hChild]
      exact hWalk
  · rintro ⟨hShown, hOpen⟩ front hNe hPrefix u hWalk
    cases front with
    | nil => exact absurd rfl hNe
    | cons j front =>
      obtain ⟨rfl, hRest⟩ := List.cons_prefix_cons.mp hPrefix
      rw [walk_cons, hChild] at hWalk
      cases front with
      | nil =>
        obtain rfl := Option.some.inj hWalk
        exact hShown
      | cons k front => exact hOpen (k :: front) (List.cons_ne_nil k front) hRest u hWalk

/-! ## What is below a node -/

mutual

/-- The nodes below the root and their positions, of which a hidden one takes with it what is below it. -/
def descendants (hidden : RoseTree α → Bool) : RoseTree α → List (List Nat × RoseTree α)
  | node _ children => descendantsFrom hidden 0 children

def descendantsFrom (hidden : RoseTree α → Bool) : Nat → List (RoseTree α) → List (List Nat × RoseTree α)
  | _, [] => []
  | i, child :: rest =>
    (if hidden child then [] else ([i], child) :: (descendants hidden child).map (Prod.map (i :: ·) id)) ++
      descendantsFrom hidden (i + 1) rest

end

/-- What is at a position below a child: the child itself or something below it. -/
def Under (hidden : RoseTree α → Bool) (child : RoseTree α) (path : List Nat) (u : RoseTree α) : Prop :=
  path = [] ∧ u = child ∨ (path, u) ∈ descendants hidden child

theorem mem_descendantsFrom {k : Nat} {children : List (RoseTree α)} :
    (path, u) ∈ descendantsFrom hidden k children ↔ ∃ i child rest, children[i]? = some child ∧ hidden child = false ∧
      path = (k + i) :: rest ∧ Under hidden child rest u := by
  induction children generalizing k with
  | nil =>
    rw [descendantsFrom]
    exact iff_of_false nofun nofun
  | cons first others ih =>
    have hFirst : (path, u) ∈ (if hidden first then [] else
        ([k], first) :: (descendants hidden first).map (Prod.map (k :: ·) id)) ↔
          hidden first = false ∧ ∃ rest, path = k :: rest ∧ Under hidden first rest u := by
      cases hidden first with
      | true => exact iff_of_false nofun nofun
      | false => simp [Under]; grind
    rw [descendantsFrom, List.mem_append, hFirst, ih]
    constructor
    · rintro (⟨hShown, rest, rfl, hUnder⟩ | ⟨i, child, rest, hChild, hShown, rfl, hUnder⟩)
      · exact ⟨0, first, rest, rfl, hShown, rfl, hUnder⟩
      · exact ⟨i + 1, child, rest, hChild, hShown, by rw [Nat.add_assoc, Nat.add_comm 1 i], hUnder⟩
    · rintro ⟨i, child, rest, hChild, hShown, rfl, hUnder⟩
      cases i with
      | zero =>
        obtain rfl := Option.some.inj hChild
        exact .inl ⟨hShown, rest, rfl, hUnder⟩
      | succ i => exact .inr ⟨i, child, rest, hChild, hShown, by rw [Nat.add_assoc, Nat.add_comm 1 i], hUnder⟩

theorem mem_descendants_cons : (i :: path, u) ∈ descendants hidden t ↔ ∃ child, t.children[i]? = some child ∧ hidden child = false ∧
    Under hidden child path u := by
  obtain ⟨label, children⟩ := t
  rw [descendants, mem_descendantsFrom]
  simp only [Nat.zero_add, List.cons.injEq]
  constructor
  · rintro ⟨_, child, _, hChild, hShown, ⟨rfl, rfl⟩, hUnder⟩
    exact ⟨child, hChild, hShown, hUnder⟩
  · rintro ⟨child, hChild, hShown, hUnder⟩
    exact ⟨i, child, path, hChild, hShown, ⟨rfl, rfl⟩, hUnder⟩

theorem ne_nil_of_mem_descendants (h : (path, u) ∈ descendants hidden t) : path ≠ [] := by
  obtain ⟨label, children⟩ := t
  rw [descendants, mem_descendantsFrom] at h
  obtain ⟨i, child, rest, -, -, rfl, -⟩ := h
  exact List.cons_ne_nil _ _

/-- What is below the root and not hidden is met with its own position. -/
theorem mem_descendants_iff : (path, u) ∈ descendants hidden t ↔ path ≠ [] ∧ t.walk path = some u ∧ Open hidden t path := by
  induction path generalizing t with
  | nil => exact iff_of_false (fun h => ne_nil_of_mem_descendants h rfl) fun h => h.1 rfl
  | cons i path ih =>
    rw [mem_descendants_cons, walk_cons]
    constructor
    · rintro ⟨child, hChild, hShown, hUnder⟩
      rw [hChild, open_cons hChild]
      rcases hUnder with ⟨rfl, rfl⟩ | hBelow
      · exact ⟨List.cons_ne_nil _ _, rfl, hShown, open_nil⟩
      · obtain ⟨-, hWalk, hOpen⟩ := ih.mp hBelow
        exact ⟨List.cons_ne_nil _ _, hWalk, hShown, hOpen⟩
    · rintro ⟨-, hWalk, hOpen⟩
      obtain ⟨child, hChild, hWalk⟩ := Option.bind_eq_some_iff.mp hWalk
      obtain ⟨hShown, hOpen⟩ := (open_cons hChild).mp hOpen
      refine ⟨child, hChild, hShown, ?_⟩
      cases path with
      | nil => exact .inl ⟨rfl, (Option.some.inj hWalk).symm⟩
      | cons j path => exact .inr (ih.mpr ⟨List.cons_ne_nil _ _, hWalk, hOpen⟩)

/-! ## The order they are met in -/

mutual

theorem pairwise_descendants : ∀ t : RoseTree α, ((descendants hidden t).map Prod.fst).Pairwise (· < ·)
  | node _ children => pairwise_descendantsFrom 0 children

theorem pairwise_descendantsFrom (k : Nat) : ∀ children : List (RoseTree α),
    ((descendantsFrom hidden k children).map Prod.fst).Pairwise (· < ·)
  | [] => List.Pairwise.nil
  | first :: others => by
    rw [descendantsFrom, List.map_append, List.pairwise_append]
    refine ⟨?_, pairwise_descendantsFrom (k + 1) others, ?_⟩
    · split
      · exact List.Pairwise.nil
      · have hSame : ((descendants hidden first).map (Prod.map (k :: ·) id)).map Prod.fst =
            ((descendants hidden first).map Prod.fst).map (k :: ·) := by simp
        rw [List.map_cons, hSame, List.pairwise_cons]
        constructor
        · intro path hMem
          obtain ⟨rest, hRest, rfl⟩ := List.mem_map.mp hMem
          obtain ⟨⟨_, u⟩, hBelow, rfl⟩ := List.mem_map.mp hRest
          obtain ⟨j, rest, hCons⟩ := List.exists_cons_of_ne_nil (ne_nil_of_mem_descendants hBelow)
          rw [hCons]
          exact List.cons_lt_cons_iff.mpr (.inr ⟨rfl, List.nil_lt_cons j rest⟩)
        · rw [List.pairwise_map]
          exact (pairwise_descendants first).imp fun h => List.cons_lt_cons_iff.mpr (.inr ⟨rfl, h⟩)
    · intro path hMem later hLater
      obtain ⟨⟨_, u⟩, hBelow, rfl⟩ := List.mem_map.mp hLater
      obtain ⟨i, child, rest, -, -, hLaterPath, -⟩ := mem_descendantsFrom.mp hBelow
      have hHead : ∃ rest, path = k :: rest := by
        split at hMem
        · exact nomatch hMem
        · simp only [List.map_cons, List.map_map, List.mem_cons, List.mem_map] at hMem
          rcases hMem with rfl | ⟨⟨front, v⟩, -, rfl⟩
          · exact ⟨[], rfl⟩
          · exact ⟨front, rfl⟩
      obtain ⟨front, rfl⟩ := hHead
      rw [hLaterPath]
      exact List.cons_lt_cons_iff.mpr (.inl (by omega))

end

end RoseTree

end Bajutsu
