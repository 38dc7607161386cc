import Bajutsu.Lib.Fuelled
import Mathlib.Data.List.Nodup
import Mathlib.Data.List.Perm.Subperm
import Mathlib.Logic.Relation

/-!
# Depth-first topological folds

A walk over references that visits what a node refers to before the node, each node once, and stops at a reference
back into its own chain. The nodes may be computed on the way, and looking one up may fail.
-/

namespace Bajutsu.TopologicalFold

open Fuelled

/-- References of type `ι` to nodes with a key and a body. The body depends only on the key, and what a body refers to
does not depend on the reference it was reached by. -/
structure Graph (ε ι κ β : Type) where
  node : ι → Except ε (κ × β)
  refs : ι → β → Except ε (List ι)
  node_unique : ∀ i j k b c, node i = .ok (k, b) → node j = .ok (k, c) → b = c
  refs_same : ∀ i j b ps, refs i b = .ok ps → refs j b = .ok ps

/-- Why a walk stops: a lookup failed, or a reference leads back into the chain it came by. -/
inductive Stop (ε ι κ : Type) where
  | refused (e : ε)
  | cycle (chain : List (κ × ι)) (i : ι)

/-- The nodes visited so far, each with the reference that came to it first. -/
abbrev Order (ι κ β : Type) := List (ι × κ × β)

variable {ε ι κ β : Type}

def Order.keys (order : Order ι κ β) : List κ := order.map fun item => item.2.1

variable (G : Graph ε ι κ β)

/-- A node refers to another one. -/
def Graph.Refers (n m : κ × β) : Prop := ∃ i ps, G.refs i n.2 = .ok ps ∧ ∃ p ∈ ps, G.node p = .ok m

def Graph.Reachable (roots : List ι) (n : κ × β) : Prop :=
  ∃ i ∈ roots, ∃ m, G.node i = .ok m ∧ Relation.ReflTransGen G.Refers m n

mutual
/-- The first problem on the paths that start with a reference, in the order of their references. -/
inductive Meets : List (κ × ι) → ι → Option (Stop ε ι κ) → Prop where
  | lost {chain i e} (hNode : G.node i = .error e) : Meets chain i (some (.refused e))
  | cycle {chain i k b} (hNode : G.node i = .ok (k, b)) (hChain : k ∈ chain.map Prod.fst) :
    Meets chain i (some (.cycle chain i))
  | refused {chain i k b e} (hNode : G.node i = .ok (k, b)) (hChain : k ∉ chain.map Prod.fst)
    (hRefs : G.refs i b = .error e) : Meets chain i (some (.refused e))
  | deeper {chain i k b ps problem} (hNode : G.node i = .ok (k, b)) (hChain : k ∉ chain.map Prod.fst)
    (hRefs : G.refs i b = .ok ps) (hPaths : MeetsIn (chain ++ [(k, i)]) ps problem) : Meets chain i problem

inductive MeetsIn : List (κ × ι) → List ι → Option (Stop ε ι κ) → Prop where
  | nil {chain} : MeetsIn chain [] none
  | here {chain p ps stop} (h : Meets chain p (some stop)) : MeetsIn chain (p :: ps) (some stop)
  | later {chain p ps problem} (h : Meets chain p none) (hLater : MeetsIn chain ps problem) :
    MeetsIn chain (p :: ps) problem
end

/-- No key stands twice in the order, and each node stands after all it refers to. -/
structure Topological (order : Order ι κ β) : Prop where
  distinct : order.keys.Nodup
  nodes : ∀ item ∈ order, G.node item.1 = .ok item.2
  sorted : ∀ earlier item later, order = earlier ++ item :: later →
    ∃ ps, G.refs item.1 item.2.2 = .ok ps ∧ ∀ p ∈ ps, ∃ m ∈ earlier, G.node p = .ok m.2

variable [DecidableEq κ]

def visit : Nat → List (κ × ι) → ι → Calc (Order ι κ β) (Stop ε ι κ) PUnit
  | 0, _, _ => outOfFuel
  | fuel + 1, chain, i => do
    let (k, b) ← settle ((G.node i).mapError .refused)
    if k ∈ chain.map Prod.fst then settle (.error (.cycle chain i))
    else
      let order ← get
      if k ∈ order.keys then return ()
      else
        let ps ← settle ((G.refs i b).mapError .refused)
        ps.forM (visit fuel (chain ++ [(k, i)]))
        modify fun order => order ++ [(i, k, b)]

def fold (fuel : Nat) (roots : List ι) : Calc (Order ι κ β) (Stop ε ι κ) PUnit := roots.forM (visit G fuel [])

variable {G}

/-! ## One visit -/

theorem mapError_ok {α δ : Type} {x : Except ε α} {f : ε → δ} {a : α} (h : x.mapError f = .ok a) : x = .ok a := by
  cases x with
  | error e => cases h
  | ok b =>
    cases h
    rfl

theorem mapError_error {α δ : Type} {x : Except ε α} {f : ε → δ} {d : δ} (h : x.mapError f = .error d) :
    ∃ e, x = .error e ∧ d = f e := by
  cases x with
  | error e =>
    cases h
    exact ⟨e, rfl, rfl⟩
  | ok b => cases h

/-- A visit that returns found the node done, or visited all it refers to before it. -/
theorem visit_returns {fuel : Nat} {chain : List (κ × ι)} {i : ι} {order order' : Order ι κ β} {u : PUnit}
    (h : Returns (visit G (fuel + 1) chain i) order u order') :
    ∃ k b, G.node i = .ok (k, b) ∧ k ∉ chain.map Prod.fst ∧
      (k ∈ order.keys ∧ order' = order ∨
        k ∉ order.keys ∧ ∃ ps mid, G.refs i b = .ok ps ∧
          Returns (ps.forM (visit G fuel (chain ++ [(k, i)]))) order PUnit.unit mid ∧ order' = mid ++ [(i, k, b)]) := by
  rw [visit] at h
  obtain ⟨⟨k, b⟩, _, hNode, hRest⟩ := returns_bind h
  obtain ⟨hFound, rfl⟩ := returns_settle hNode
  refine ⟨k, b, mapError_ok hFound, ?_⟩
  dsimp only at hRest
  split at hRest
  · cases (returns_settle hRest).1
  · rename_i hChain
    refine ⟨hChain, ?_⟩
    obtain ⟨_, _, hGet, hTail⟩ := returns_bind hRest
    obtain ⟨rfl, rfl⟩ := returns_get hGet
    split at hTail
    · rename_i hDone
      exact .inl ⟨hDone, (returns_pure hTail).2⟩
    · rename_i hNew
      obtain ⟨ps, _, hRefs, hBody⟩ := returns_bind hTail
      obtain ⟨hParents, rfl⟩ := returns_settle hRefs
      obtain ⟨⟨⟩, mid, hLoop, hLast⟩ := returns_bind hBody
      exact .inr ⟨hNew, ps, mid, mapError_ok hParents, hLoop, returns_modify hLast⟩

/-- A visit that stops does so at its own node or below it. -/
theorem visit_raises {fuel : Nat} {chain : List (κ × ι)} {i : ι} {order : Order ι κ β} {stop : Stop ε ι κ}
    (h : Raises (visit G (fuel + 1) chain i) order stop) :
    (∃ e, G.node i = .error e ∧ stop = .refused e) ∨
      ∃ k b, G.node i = .ok (k, b) ∧
        (k ∈ chain.map Prod.fst ∧ stop = .cycle chain i ∨
          k ∉ chain.map Prod.fst ∧ k ∉ order.keys ∧
            ((∃ e, G.refs i b = .error e ∧ stop = .refused e) ∨
              ∃ ps, G.refs i b = .ok ps ∧ Raises (ps.forM (visit G fuel (chain ++ [(k, i)]))) order stop)) := by
  rw [visit] at h
  obtain hNode | ⟨⟨k, b⟩, _, hNode, hRest⟩ := raises_bind h
  · obtain ⟨e, hLost, hStop⟩ := mapError_error (raises_settle hNode)
    exact .inl ⟨e, hLost, hStop⟩
  · obtain ⟨hFound, rfl⟩ := returns_settle hNode
    refine .inr ⟨k, b, mapError_ok hFound, ?_⟩
    dsimp only at hRest
    split at hRest
    · rename_i hChain
      have hStop := raises_settle hRest
      cases hStop
      exact .inl ⟨hChain, rfl⟩
    · rename_i hChain
      refine .inr ⟨hChain, ?_⟩
      obtain hGet | ⟨_, _, hGet, hTail⟩ := raises_bind hRest
      · exact absurd hGet not_raises_get
      obtain ⟨rfl, rfl⟩ := returns_get hGet
      split at hTail
      · exact absurd hTail not_raises_pure
      · rename_i hNew
        refine ⟨hNew, ?_⟩
        obtain hRefs | ⟨ps, _, hRefs, hBody⟩ := raises_bind hTail
        · exact .inl (mapError_error (raises_settle hRefs))
        · obtain ⟨hParents, rfl⟩ := returns_settle hRefs
          obtain hLoop | ⟨-, _, -, hLast⟩ := raises_bind hBody
          · exact .inr ⟨ps, mapError_ok hParents, hLoop⟩
          · exact absurd hLast not_raises_modify

/-! ## The walk ends -/

/-- Each visit puts a new key on the chain, so a walk over finitely many keys ends. -/
theorem visit_halts {all : List κ} (hAll : ∀ i k b, G.node i = .ok (k, b) → k ∈ all) {fuel : Nat}
    {chain : List (κ × ι)} (hDistinct : (chain.map Prod.fst).Nodup) (hChain : ∀ k ∈ chain.map Prod.fst, k ∈ all)
    (hFuel : all.length < fuel + chain.length) (i : ι) : Halts (visit G fuel chain i) := by
  induction fuel generalizing chain i with
  | zero =>
    have hLength := (hDistinct.subperm hChain).length_le
    rw [List.length_map] at hLength
    omega
  | succ fuel ih =>
    rw [visit]
    apply halts_bind (halts_settle _)
    rintro ⟨k, b⟩ s s' hNode
    have hNode := mapError_ok (returns_settle hNode).1
    dsimp only
    split
    · exact halts_settle _
    · rename_i hNew
      apply halts_bind halts_get
      rintro order - - -
      split
      · exact halts_pure _
      · apply halts_bind (halts_settle _)
        rintro ps - - -
        apply halts_bind
        · apply halts_forM
          intro p _
          apply ih
          · rw [List.map_append]
            exact hDistinct.append (List.nodup_singleton k) (List.disjoint_singleton.mpr hNew)
          · intro other hMem
            rw [List.map_append, List.mem_append] at hMem
            obtain hMem | hMem := hMem
            · exact hChain other hMem
            · rw [List.mem_singleton.mp hMem]
              exact hAll i k b hNode
          · rw [List.length_append, List.length_singleton]
            omega
        · rintro - - - -
          exact halts_modify _

theorem fold_halts {all : List κ} (hAll : ∀ i k b, G.node i = .ok (k, b) → k ∈ all) {fuel : Nat}
    (hFuel : all.length < fuel) (roots : List ι) : Halts (fold G fuel roots) := by
  apply halts_forM
  intro i _
  apply visit_halts hAll
  · exact List.nodup_nil
  · exact fun _ hMem => absurd hMem List.not_mem_nil
  · exact hFuel

/-! ## The order -/

omit [DecidableEq κ] in
theorem Topological.nil : Topological G [] := ⟨List.nodup_nil, nofun, by simp⟩

omit [DecidableEq κ] in
theorem mem_keys {order : Order ι κ β} {item : ι × κ × β} (h : item ∈ order) : item.2.1 ∈ order.keys :=
  List.mem_map_of_mem h

omit [DecidableEq κ] in
theorem Topological.snoc {order : Order ι κ β} (h : Topological G order) {i : ι} {k : κ} {b : β} {ps : List ι}
    (hNew : k ∉ order.keys) (hNode : G.node i = .ok (k, b)) (hRefs : G.refs i b = .ok ps)
    (hBefore : ∀ p ∈ ps, ∃ m ∈ order, G.node p = .ok m.2) : Topological G (order ++ [(i, k, b)]) := by
  constructor
  · rw [Order.keys, List.map_append]
    exact h.distinct.append (List.nodup_singleton k) (List.disjoint_singleton.mpr hNew)
  · intro item hMem
    obtain hMem | hMem := List.mem_append.mp hMem
    · exact h.nodes item hMem
    · rw [List.mem_singleton.mp hMem]
      exact hNode
  · intro earlier item later hSplit
    obtain rfl | ⟨rest, last, rfl⟩ := List.eq_nil_or_concat later
    · obtain ⟨rfl, hLast⟩ := List.append_inj' hSplit rfl
      rw [← List.singleton_inj.mp hLast]
      exact ⟨ps, hRefs, hBefore⟩
    · rw [List.concat_eq_append, ← List.cons_append, ← List.append_assoc] at hSplit
      exact h.sorted earlier item rest (List.append_inj' hSplit rfl).1

/-- What a visit or a loop of visits adds to the order: all that its references lead to, and nothing of its chain. -/
structure Added (G : Graph ε ι κ β) (chain : List (κ × ι)) (ps : List ι) (order order' : Order ι κ β) : Prop where
  topological : Topological G order'
  apart : ∀ k ∈ chain.map Prod.fst, k ∉ order'.keys
  grows : ∃ added, order' = order ++ added ∧
    ∀ item ∈ added, ∃ p ∈ ps, ∃ n, G.node p = .ok n ∧ Relation.ReflTransGen G.Refers n item.2
  holds : ∀ p ∈ ps, ∃ m ∈ order', G.node p = .ok m.2

omit [DecidableEq κ] in
theorem Added.mem {chain : List (κ × ι)} {ps : List ι} {order order' : Order ι κ β} (h : Added G chain ps order order')
    {item : ι × κ × β} (hMem : item ∈ order) : item ∈ order' := by
  obtain ⟨added, rfl, -⟩ := h.grows
  exact List.mem_append_left added hMem

omit [DecidableEq κ] in
theorem Added.cons {chain : List (κ × ι)} {p : ι} {ps : List ι} {order mid order' : Order ι κ β}
    (hFirst : Added G chain [p] order mid) (hRest : Added G chain ps mid order') :
    Added G chain (p :: ps) order order' := by
  refine ⟨hRest.topological, hRest.apart, ?_, ?_⟩
  · obtain ⟨first, rfl, hFirstAdded⟩ := hFirst.grows
    obtain ⟨rest, rfl, hRestAdded⟩ := hRest.grows
    refine ⟨first ++ rest, List.append_assoc order first rest, fun item hMem => ?_⟩
    obtain hMem | hMem := List.mem_append.mp hMem
    · obtain ⟨q, hq, hFrom⟩ := hFirstAdded item hMem
      exact ⟨q, List.mem_singleton.mp hq ▸ List.mem_cons_self, hFrom⟩
    · obtain ⟨q, hq, hFrom⟩ := hRestAdded item hMem
      exact ⟨q, List.mem_cons_of_mem p hq, hFrom⟩
  · intro q hq
    obtain rfl | hq := List.mem_cons.mp hq
    · obtain ⟨m, hMem, hNode⟩ := hFirst.holds q List.mem_cons_self
      exact ⟨m, hRest.mem hMem, hNode⟩
    · exact hRest.holds q hq

theorem forM_added {fuel : Nat} {chain : List (κ × ι)}
    (hVisit : ∀ {i : ι} {order order' : Order ι κ β} {u : PUnit}, Topological G order →
      (∀ k ∈ chain.map Prod.fst, k ∉ order.keys) → Returns (visit G fuel chain i) order u order' →
        Added G chain [i] order order')
    {ps : List ι} {order order' : Order ι κ β} {u : PUnit} (hTop : Topological G order)
    (hApart : ∀ k ∈ chain.map Prod.fst, k ∉ order.keys) (h : Returns (ps.forM (visit G fuel chain)) order u order') :
    Added G chain ps order order' := by
  induction ps generalizing order with
  | nil =>
    rw [(returns_pure h).2]
    exact ⟨hTop, hApart, ⟨[], by simp⟩, nofun⟩
  | cons p ps ih =>
    obtain ⟨mid, hFirst, hRest⟩ := returns_forM_cons h
    have hAdded := hVisit hTop hApart hFirst
    exact hAdded.cons (ih hAdded.topological hAdded.apart hRest)

theorem visit_added {fuel : Nat} {chain : List (κ × ι)} {i : ι} {order order' : Order ι κ β} {u : PUnit}
    (hTop : Topological G order) (hApart : ∀ k ∈ chain.map Prod.fst, k ∉ order.keys)
    (h : Returns (visit G fuel chain i) order u order') : Added G chain [i] order order' := by
  induction fuel generalizing chain i order order' u with
  | zero => exact absurd h not_returns_outOfFuel
  | succ fuel ih =>
    obtain ⟨k, b, hNode, hChain, ⟨hDone, rfl⟩ | ⟨hNew, ps, mid, hRefs, hLoop, rfl⟩⟩ := visit_returns h
    · refine ⟨hTop, hApart, ⟨[], by simp⟩, fun p hp => ?_⟩
      rw [List.mem_singleton.mp hp]
      obtain ⟨⟨j, k', c⟩, hMem, rfl⟩ := List.mem_map.mp hDone
      have hSame := hTop.nodes _ hMem
      rw [G.node_unique i j k' b c hNode hSame] at hNode
      exact ⟨_, hMem, hNode⟩
    · have hApart' : ∀ other ∈ (chain ++ [(k, i)]).map Prod.fst, other ∉ order.keys := by
        intro other hMem
        rw [List.map_append, List.mem_append] at hMem
        obtain hMem | hMem := hMem
        · exact hApart other hMem
        · rw [List.mem_singleton.mp hMem]
          exact hNew
      have hAdded := forM_added (fun hTop hApart h => ih hTop hApart h) hTop hApart' hLoop
      have hOwn : k ∉ mid.keys := hAdded.apart k (by simp)
      have hBefore : ∀ p ∈ ps, ∃ m ∈ mid, G.node p = .ok m.2 := hAdded.holds
      refine ⟨hAdded.topological.snoc hOwn hNode hRefs hBefore, fun other hMem hKey => ?_, ?_, fun p hp => ?_⟩
      · rw [Order.keys, List.map_append, List.mem_append] at hKey
        obtain hKey | hKey := hKey
        · exact hAdded.apart other (by rw [List.map_append]; exact List.mem_append_left _ hMem) hKey
        · rw [List.mem_singleton.mp hKey] at hMem
          exact hChain hMem
      · obtain ⟨added, rfl, hFrom⟩ := hAdded.grows
        refine ⟨added ++ [(i, k, b)], List.append_assoc _ _ _, fun item hMem => ⟨i, List.mem_cons_self, (k, b), hNode, ?_⟩⟩
        obtain hMem | hMem := List.mem_append.mp hMem
        · obtain ⟨p, hp, n, hFound, hPath⟩ := hFrom item hMem
          exact .head ⟨i, ps, hRefs, p, hp, hFound⟩ hPath
        · rw [List.mem_singleton.mp hMem]
      · rw [List.mem_singleton.mp hp]
        exact ⟨(i, k, b), List.mem_append_right mid List.mem_cons_self, hNode⟩

theorem fold_added {fuel : Nat} {roots : List ι} {order : Order ι κ β} {u : PUnit}
    (h : Returns (fold G fuel roots) [] u order) : Added G [] roots [] order :=
  forM_added (fun hTop hApart h => visit_added hTop hApart h) .nil (fun _ hMem => absurd hMem List.not_mem_nil) h

section Topologies

omit [DecidableEq κ]

theorem Topological.refers {order earlier later : Order ι κ β} (h : Topological G order) {item : ι × κ × β}
    (hSplit : order = earlier ++ item :: later) {n : κ × β} (hRefers : G.Refers item.2 n) : ∃ m ∈ earlier, m.2 = n := by
  obtain ⟨i, ps, hRefs, p, hp, hNode⟩ := hRefers
  obtain ⟨ps', hOwn, hBefore⟩ := h.sorted earlier item later hSplit
  have hSame := hRefs.symm.trans (G.refs_same item.1 i item.2.2 ps' hOwn)
  cases hSame
  obtain ⟨m, hMem, hFound⟩ := hBefore p hp
  exact ⟨m, hMem, Except.ok.inj (hFound.symm.trans hNode)⟩

/-- In a topological order all that a node leads to stands before it. -/
theorem Topological.before {order earlier later : Order ι κ β} (h : Topological G order) {item : ι × κ × β}
    (hSplit : order = earlier ++ item :: later) {n : κ × β} (hPath : Relation.TransGen G.Refers item.2 n) :
    ∃ m ∈ earlier, m.2 = n := by
  induction hPath with
  | single hRefers => exact h.refers hSplit hRefers
  | tail _ hRefers ih =>
    obtain ⟨m, hMem, rfl⟩ := ih
    obtain ⟨first, rest, rfl⟩ := List.append_of_mem hMem
    rw [List.append_assoc, List.cons_append] at hSplit
    obtain ⟨last, hLast, hEq⟩ := h.refers hSplit hRefers
    exact ⟨last, List.mem_append_left _ hLast, hEq⟩

theorem Topological.apart {order earlier later : Order ι κ β} (h : Topological G order) {item : ι × κ × β}
    (hSplit : order = earlier ++ item :: later) : item.2.1 ∉ Order.keys earlier := by
  have hDistinct := h.distinct
  rw [hSplit, Order.keys, List.map_append, List.map_cons] at hDistinct
  exact fun hMem => List.disjoint_of_nodup_append hDistinct hMem List.mem_cons_self

theorem Topological.acyclic {order : Order ι κ β} (h : Topological G order) {item : ι × κ × β} (hMem : item ∈ order) :
    ¬Relation.TransGen G.Refers item.2 item.2 := by
  intro hPath
  obtain ⟨earlier, later, hSplit⟩ := List.append_of_mem hMem
  obtain ⟨m, hm, hEq⟩ := h.before hSplit hPath
  exact h.apart hSplit (hEq ▸ mem_keys hm)

theorem Added.reachable {roots : List ι} {order : Order ι κ β} (h : Added G [] roots [] order) {n : κ × β} :
    G.Reachable roots n ↔ ∃ item ∈ order, item.2 = n := by
  constructor
  · rintro ⟨i, hRoot, m, hNode, hPath⟩
    induction hPath with
    | refl =>
      obtain ⟨item, hMem, hFound⟩ := h.holds i hRoot
      exact ⟨item, hMem, Except.ok.inj (hFound.symm.trans hNode)⟩
    | tail _ hRefers ih =>
      obtain ⟨item, hMem, rfl⟩ := ih
      obtain ⟨earlier, later, hSplit⟩ := List.append_of_mem hMem
      obtain ⟨last, hLast, hEq⟩ := h.topological.refers hSplit hRefers
      exact ⟨last, hSplit ▸ List.mem_append_left _ hLast, hEq⟩
  · rintro ⟨item, hMem, rfl⟩
    obtain ⟨added, rfl, hFrom⟩ := h.grows
    exact hFrom item hMem

end Topologies

/-! ## The problem a walk stops at -/

section Problems

omit [DecidableEq κ]

theorem meetsIn_none {chain : List (κ × ι)} {ps : List ι} (h : ∀ p ∈ ps, Meets G chain p none) :
    MeetsIn G chain ps none := by
  induction ps with
  | nil => exact .nil
  | cons p ps ih => exact .later (h p List.mem_cons_self) (ih fun q hq => h q (List.mem_cons_of_mem p hq))

/-- A node that is done leads to no problem, whichever way it is reached. -/
theorem Topological.meets {order earlier later : Order ι κ β} (h : Topological G order) {item : ι × κ × β}
    (hSplit : order = earlier ++ item :: later) {chain : List (κ × ι)}
    (hChain : ∀ k ∈ chain.map Prod.fst, k ∉ Order.keys earlier ∧ k ≠ item.2.1) {i : ι} (hNode : G.node i = .ok item.2) :
    Meets G chain i none := by
  obtain ⟨n, hLength⟩ : ∃ n, earlier.length = n := ⟨_, rfl⟩
  induction n using Nat.strongRecOn generalizing earlier item later chain i with
  | ind n ih =>
    obtain ⟨ps, hRefs, hBefore⟩ := h.sorted earlier item later hSplit
    apply Meets.deeper hNode (fun hMem => (hChain _ hMem).2 rfl) (G.refs_same _ i _ _ hRefs)
    apply meetsIn_none
    intro p hp
    obtain ⟨m, hMem, hFound⟩ := hBefore p hp
    obtain ⟨first, rest, hParts⟩ := List.append_of_mem hMem
    have hWhole : order = first ++ m :: (rest ++ item :: later) := by
      rw [hSplit, hParts, List.append_assoc, List.cons_append]
    refine ih first.length ?_ hWhole ?_ hFound rfl
    · rw [← hLength, hParts, List.length_append, List.length_cons]
      omega
    · have hOwn := h.apart hSplit
      intro k hKey
      have hEarlier : k ∉ Order.keys earlier := by
        rw [List.map_append, List.mem_append] at hKey
        obtain hKey | hKey := hKey
        · exact (hChain k hKey).1
        · rw [List.mem_singleton.mp hKey]
          exact hOwn
      rw [hParts, Order.keys, List.map_append, List.map_cons, List.mem_append, not_or, List.mem_cons, not_or] at hEarlier
      exact ⟨hEarlier.1, hEarlier.2.1⟩

end Problems

theorem visit_meets_none {fuel : Nat} {chain : List (κ × ι)} {i : ι} {order order' : Order ι κ β} {u : PUnit}
    (hTop : Topological G order) (hApart : ∀ k ∈ chain.map Prod.fst, k ∉ order.keys)
    (h : Returns (visit G fuel chain i) order u order') : Meets G chain i none := by
  have hAdded := visit_added hTop hApart h
  obtain ⟨item, hMem, hNode⟩ := hAdded.holds i List.mem_cons_self
  obtain ⟨earlier, later, hSplit⟩ := List.append_of_mem hMem
  refine hAdded.topological.meets hSplit (fun k hKey => ?_) hNode
  have hNot := hAdded.apart k hKey
  rw [hSplit, Order.keys, List.map_append, List.map_cons, List.mem_append, not_or, List.mem_cons, not_or] at hNot
  exact ⟨hNot.1, hNot.2.1⟩

theorem forM_meets {fuel : Nat} {chain : List (κ × ι)} {stop : Stop ε ι κ}
    (hVisit : ∀ {i : ι} {order : Order ι κ β}, Topological G order → (∀ k ∈ chain.map Prod.fst, k ∉ order.keys) →
      Raises (visit G fuel chain i) order stop → Meets G chain i (some stop))
    {ps : List ι} {order : Order ι κ β} (hTop : Topological G order) (hApart : ∀ k ∈ chain.map Prod.fst, k ∉ order.keys)
    (h : Raises (ps.forM (visit G fuel chain)) order stop) : MeetsIn G chain ps (some stop) := by
  induction ps generalizing order with
  | nil => exact absurd h not_raises_pure
  | cons p ps ih =>
    obtain hFirst | ⟨mid, hFirst, hRest⟩ := raises_forM_cons h
    · exact .here (hVisit hTop hApart hFirst)
    · have hAdded := visit_added hTop hApart hFirst
      exact .later (visit_meets_none hTop hApart hFirst) (ih hAdded.topological hAdded.apart hRest)

theorem visit_meets {fuel : Nat} {chain : List (κ × ι)} {i : ι} {order : Order ι κ β} {stop : Stop ε ι κ}
    (hTop : Topological G order) (hApart : ∀ k ∈ chain.map Prod.fst, k ∉ order.keys)
    (h : Raises (visit G fuel chain i) order stop) : Meets G chain i (some stop) := by
  induction fuel generalizing chain i order with
  | zero => cases h
  | succ fuel ih =>
    obtain ⟨e, hNode, rfl⟩ | ⟨k, b, hNode, ⟨hChain, rfl⟩ | ⟨hChain, hNew, hRest⟩⟩ := visit_raises h
    · exact .lost hNode
    · exact .cycle hNode hChain
    · obtain ⟨e, hRefs, rfl⟩ | ⟨ps, hRefs, hLoop⟩ := hRest
      · exact .refused hNode hChain hRefs
      · apply Meets.deeper hNode hChain hRefs
        apply forM_meets (fun hTop hApart h => ih hTop hApart h) hTop _ hLoop
        intro other hMem
        rw [List.map_append, List.mem_append] at hMem
        obtain hMem | hMem := hMem
        · exact hApart other hMem
        · rw [List.mem_singleton.mp hMem]
          exact hNew

theorem fold_meets_none {fuel : Nat} {roots : List ι} {order : Order ι κ β} {u : PUnit}
    (h : Returns (fold G fuel roots) [] u order) : MeetsIn G [] roots none := by
  have hAdded := fold_added h
  apply meetsIn_none
  intro i hRoot
  obtain ⟨item, hMem, hNode⟩ := hAdded.holds i hRoot
  obtain ⟨earlier, later, hSplit⟩ := List.append_of_mem hMem
  exact hAdded.topological.meets hSplit (fun _ hKey => absurd hKey List.not_mem_nil) hNode

theorem fold_meets {fuel : Nat} {roots : List ι} {stop : Stop ε ι κ} (h : Raises (fold G fuel roots) [] stop) :
    MeetsIn G [] roots (some stop) :=
  forM_meets (fun hTop hApart h => visit_meets hTop hApart h) .nil (fun _ hMem => absurd hMem List.not_mem_nil) h

section Cycles

omit [DecidableEq κ]

mutual
/-- There is one first problem. -/
theorem Meets.unique {chain : List (κ × ι)} {i : ι} {problem other : Option (Stop ε ι κ)} :
    Meets G chain i problem → Meets G chain i other → problem = other
  | .lost hNode, h => by
    cases h with
    | lost hNode' => rw [Except.error.inj (hNode.symm.trans hNode')]
    | cycle hNode' => cases hNode.symm.trans hNode'
    | refused hNode' => cases hNode.symm.trans hNode'
    | deeper hNode' => cases hNode.symm.trans hNode'
  | .cycle hNode hChain, h => by
    cases h with
    | lost hNode' => cases hNode.symm.trans hNode'
    | cycle => rfl
    | refused hNode' hChain' =>
      cases hNode.symm.trans hNode'
      exact absurd hChain hChain'
    | deeper hNode' hChain' =>
      cases hNode.symm.trans hNode'
      exact absurd hChain hChain'
  | .refused hNode hChain hRefs, h => by
    cases h with
    | lost hNode' => cases hNode.symm.trans hNode'
    | cycle hNode' hChain' =>
      cases hNode.symm.trans hNode'
      exact absurd hChain' hChain
    | refused hNode' _ hRefs' =>
      cases hNode.symm.trans hNode'
      rw [Except.error.inj (hRefs.symm.trans hRefs')]
    | deeper hNode' _ hRefs' =>
      cases hNode.symm.trans hNode'
      cases hRefs.symm.trans hRefs'
  | .deeper hNode hChain hRefs hPaths, h => by
    cases h with
    | lost hNode' => cases hNode.symm.trans hNode'
    | cycle hNode' hChain' =>
      cases hNode.symm.trans hNode'
      exact absurd hChain' hChain
    | refused hNode' _ hRefs' =>
      cases hNode.symm.trans hNode'
      cases hRefs.symm.trans hRefs'
    | deeper hNode' _ hRefs' hPaths' =>
      cases hNode.symm.trans hNode'
      cases hRefs.symm.trans hRefs'
      exact MeetsIn.unique hPaths hPaths'

theorem MeetsIn.unique {chain : List (κ × ι)} {ps : List ι} {problem other : Option (Stop ε ι κ)} :
    MeetsIn G chain ps problem → MeetsIn G chain ps other → problem = other
  | .nil, h => by
    cases h
    rfl
  | .here hFirst, h => by
    cases h with
    | here hFirst' => exact Meets.unique hFirst hFirst'
    | later hFirst' => cases Meets.unique hFirst hFirst'
  | .later hFirst hLater, h => by
    cases h with
    | here hFirst' => cases Meets.unique hFirst hFirst'
    | later _ hLater' => exact MeetsIn.unique hLater hLater'
end

/-- A reference that was come to by the nodes of a chain. -/
def Trails (G : Graph ε ι κ β) (roots : List ι) (chain : List (κ × ι)) (i : ι) : Prop :=
  ∀ n, G.node i = .ok n → G.Reachable roots n ∧
    ∀ k ∈ chain.map Prod.fst, ∃ j b, G.node j = .ok (k, b) ∧ Relation.TransGen G.Refers (k, b) n

theorem Trails.deeper {roots : List ι} {chain : List (κ × ι)} {i : ι} {k : κ} {b : β} {ps : List ι}
    (h : Trails G roots chain i) (hNode : G.node i = .ok (k, b)) (hRefs : G.refs i b = .ok ps) {p : ι} (hp : p ∈ ps) :
    Trails G roots (chain ++ [(k, i)]) p := by
  intro n hFound
  have hRefers : G.Refers (k, b) n := ⟨i, ps, hRefs, p, hp, hFound⟩
  obtain ⟨⟨root, hRoot, m, hStart, hPath⟩, hChain⟩ := h _ hNode
  refine ⟨⟨root, hRoot, m, hStart, hPath.tail hRefers⟩, fun other hKey => ?_⟩
  rw [List.map_append, List.mem_append] at hKey
  obtain hKey | hKey := hKey
  · obtain ⟨j, c, hOther, hLeads⟩ := hChain other hKey
    exact ⟨j, c, hOther, hLeads.tail hRefers⟩
  · rw [List.mem_singleton.mp hKey]
    exact ⟨i, b, hNode, .single hRefers⟩

mutual
theorem Meets.cycles {roots : List ι} {chain chain' : List (κ × ι)} {i j : ι} {problem : Option (Stop ε ι κ)}
    (hTrails : Trails G roots chain i) (hCycle : problem = some (.cycle chain' j)) :
    Meets G chain i problem → ∃ n, G.Reachable roots n ∧ Relation.TransGen G.Refers n n
  | .lost _ => nomatch hCycle
  | .refused _ _ _ => nomatch hCycle
  | .cycle hNode hChain => by
    obtain ⟨hReach, hLeads⟩ := hTrails _ hNode
    obtain ⟨j, b, hOther, hPath⟩ := hLeads _ hChain
    rw [G.node_unique j i _ _ _ hOther hNode] at hPath
    exact ⟨_, hReach, hPath⟩
  | .deeper hNode _ hRefs hPaths => MeetsIn.cycles (fun _ hp => hTrails.deeper hNode hRefs hp) hCycle hPaths

theorem MeetsIn.cycles {roots : List ι} {chain chain' : List (κ × ι)} {ps : List ι} {j : ι}
    {problem : Option (Stop ε ι κ)} (hTrails : ∀ p ∈ ps, Trails G roots chain p)
    (hCycle : problem = some (.cycle chain' j)) :
    MeetsIn G chain ps problem → ∃ n, G.Reachable roots n ∧ Relation.TransGen G.Refers n n
  | .nil => nomatch hCycle
  | .here h => Meets.cycles (hTrails _ List.mem_cons_self) hCycle h
  | .later _ hLater => MeetsIn.cycles (fun p hp => hTrails p (List.mem_cons_of_mem _ hp)) hCycle hLater
end

theorem MeetsIn.exists_cycle {roots : List ι} {chain : List (κ × ι)} {i : ι}
    (h : MeetsIn G [] roots (some (.cycle chain i))) : ∃ n, G.Reachable roots n ∧ Relation.TransGen G.Refers n n := by
  apply MeetsIn.cycles _ rfl h
  intro p hp n hNode
  exact ⟨⟨p, hp, n, hNode, .refl⟩, fun _ hKey => absurd hKey List.not_mem_nil⟩

mutual
theorem Meets.refusal {chain : List (κ × ι)} {i : ι} {e : ε} {problem : Option (Stop ε ι κ)}
    (hRefused : problem = some (.refused e)) :
    Meets G chain i problem → ∃ j, G.node j = .error e ∨ ∃ b, G.refs j b = .error e
  | .lost hNode => by
    cases hRefused
    exact ⟨i, .inl hNode⟩
  | .cycle _ _ => nomatch hRefused
  | .refused _ _ hRefs => by
    cases hRefused
    exact ⟨i, .inr ⟨_, hRefs⟩⟩
  | .deeper _ _ _ hPaths => MeetsIn.refusal hRefused hPaths

theorem MeetsIn.refusal {chain : List (κ × ι)} {ps : List ι} {e : ε} {problem : Option (Stop ε ι κ)}
    (hRefused : problem = some (.refused e)) :
    MeetsIn G chain ps problem → ∃ j, G.node j = .error e ∨ ∃ b, G.refs j b = .error e
  | .nil => nomatch hRefused
  | .here h => Meets.refusal hRefused h
  | .later _ hLater => MeetsIn.refusal hRefused hLater
end

end Cycles

end Bajutsu.TopologicalFold
