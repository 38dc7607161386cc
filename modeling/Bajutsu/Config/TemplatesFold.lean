import Bajutsu.Config.Templates

/-!
# The expansion of templates is a topological fold

The templates form a graph that is read on the way. Their expansion is the depth-first fold over it: it ends, it stops
at the first problem of the `extends` paths, and else each template a target reaches has its layer once, after those of
all it extends.
-/

namespace Bajutsu.Config.Templates

open PyValue Fuelled TopologicalFold

section Graphs

variable {P : Type} (repr : String → String) (x : Expansion P)

/-- The body of a template, which is the same whichever reference it was found by. -/
def bodyOf : Key P → Option (Body P)
  | .inline name =>
    match get x.templates name with
    | some (.dict block) => some ⟨block, x.configDir, false⟩
    | _ => none
  | .file path =>
    match x.files.parse path, x.configDir with
    | .ok (.dict block), some configDir =>
      some ⟨x.files.rebased block (x.files.parent path) configDir, some (x.files.parent path), true⟩
    | _, _ => none

theorem readFile_body {ref : String} {base : Option P} {path here : P} {block : Val}
    (h : readFile x ref base = .ok (path, block, here)) :
    path ∈ x.files.existing ∧
      ∀ d, block = .dict d → bodyOf x (.file path) = some ⟨d, some here, true⟩ := by
  rw [readFile.eq_def] at h
  cases base with
  | none => cases h
  | some dir =>
    cases hRoot : suiteRoot x with
    | none =>
      rw [hRoot] at h
      cases h
    | some root =>
      cases hConfig : x.configDir with
      | none =>
        rw [hRoot, hConfig] at h
        cases h
      | some configDir =>
        rw [hRoot, hConfig] at h
        dsimp only at h
        split at h
        · cases h
        · split at h
          · cases h
          · rename_i d hParse
            cases h
            refine ⟨x.files.parse_existing _ _ hParse, fun d' hDict => ?_⟩
            cases hDict
            rw [bodyOf, hParse, hConfig]
          · rename_i value hNot hParse
            cases h
            exact ⟨x.files.parse_existing _ _ hParse, fun d hDict => absurd hDict (hNot d)⟩

theorem template_body {ref : Ref P} {key : Key P} {body : Body P} (h : template x ref = .ok (key, body)) :
    bodyOf x key = some body ∧ key ∈ x.templates.map (fun item => Key.inline item.1) ++ x.files.existing.map Key.file := by
  rw [template] at h
  split at h
  · cases h
  · rename_i key' block here hLook
    cases h
    rw [lookUp] at hLook
    split at hLook
    · rename_i entry _
      split at hLook
      · cases hLook
      · split at hLook
        · split at hLook
          · cases hLook
          · rename_i path block' here' hRead
            cases hLook
            obtain ⟨hExists, hBody⟩ := readFile_body x hRead
            exact ⟨hBody block rfl, List.mem_append_right _ (List.mem_map_of_mem hExists)⟩
        · split at hLook
          · cases hLook
          · split at hLook
            · cases hLook
            · rename_i found hFound
              cases hLook
              refine ⟨by rw [bodyOf, hFound]; rfl, List.mem_append_left _ ?_⟩
              exact List.mem_map.mpr ⟨_, get_mem hFound, rfl⟩
    · cases hLook
  · cases h

/-- The templates a target may extend, found as they are read. -/
def graph : Graph Refusal (Ref P) (Key P) (Body P) where
  node := template x
  refs := parents repr
  node_unique i j k b c hi hj := by
    have hb := (template_body x hi).1
    have hc := (template_body x hj).1
    rw [hb] at hc
    exact Option.some.inj hc
  refs_same i j b ps h := by
    rw [parents] at h ⊢
    split at h
    · cases h
    · exact h

end Graphs

/-! ## The walk is the fold -/

section Mirrored

variable {P α β : Type}

/-- The walk that has been over an order of templates. -/
def walkOf (order : Order (Ref P) (Key P) (Body P)) : Walk P where
  layers := order.map fun item => pop item.2.2.block "extends"
  platforms := order.flatMap fun item => declared item.1.label (pop item.2.2.block "extends")
  done := order.keys

def shownChain (chain : List (Key P × Ref P)) : List (Key P × String) := chain.map fun item => (item.1, item.2.shown)

/-- The error a walk ends with where the fold stops. -/
def refusalOf : Stop Refusal (Ref P) (Key P) → Refusal
  | .refused e => e
  | .cycle chain ref => .cycle (chain.map (fun item => item.2.shown) ++ [ref.shown])

def mirrored : Except (Stop Refusal (Ref P) (Key P)) (α × Order (Ref P) (Key P) (Body P)) → Except Refusal (α × Walk P)
  | .ok (a, order) => .ok (a, walkOf order)
  | .error stop => .error (refusalOf stop)

/-- A computation on walks does what one on orders does. -/
def Mirrors (a : Calc (Walk P) Refusal α)
    (b : Calc (Order (Ref P) (Key P) (Body P)) (Stop Refusal (Ref P) (Key P)) α) : Prop :=
  ∀ order, a (walkOf order) = Option.map mirrored (b order)

theorem Mirrors.bind {a : Calc (Walk P) Refusal α}
    {b : Calc (Order (Ref P) (Key P) (Body P)) (Stop Refusal (Ref P) (Key P)) α} {f : α → Calc (Walk P) Refusal β}
    {g : α → Calc (Order (Ref P) (Key P) (Body P)) (Stop Refusal (Ref P) (Key P)) β} (h : Mirrors a b)
    (hRest : ∀ v, Mirrors (f v) (g v)) : Mirrors (a >>= f) (b >>= g) := by
  intro order
  rw [bind_eq, bind_eq, h order]
  cases b order with
  | none => rfl
  | some result =>
    cases result with
    | error stop => rfl
    | ok value => exact hRest value.1 value.2

theorem Mirrors.settle (r : Except Refusal α) : Mirrors (P := P) (settle r) (settle (r.mapError .refused)) := by
  intro order
  cases r with
  | error e => rfl
  | ok value => rfl

theorem Mirrors.get {f : Walk P → Calc (Walk P) Refusal α}
    {g : Order (Ref P) (Key P) (Body P) → Calc (Order (Ref P) (Key P) (Body P)) (Stop Refusal (Ref P) (Key P)) α}
    (h : ∀ order, Mirrors (f (walkOf order)) (g order)) :
    Mirrors (MonadState.get >>= f) (MonadState.get >>= g) := fun order => h order order

theorem Mirrors.forM {xs : List α} {f : α → Calc (Walk P) Refusal PUnit}
    {g : α → Calc (Order (Ref P) (Key P) (Body P)) (Stop Refusal (Ref P) (Key P)) PUnit}
    (h : ∀ x, Mirrors (f x) (g x)) : Mirrors (xs.forM f) (xs.forM g) := by
  induction xs with
  | nil => exact fun _ => rfl
  | cons x xs ih => exact (h x).bind fun _ => ih

end Mirrored

section Expansions

variable {P : Type} [DecidableEq P] (repr : String → String) (x : Expansion P)

theorem visit_mirrors (fuel : Nat) (chain : List (Key P × Ref P)) (ref : Ref P) :
    Mirrors (visit repr x fuel (shownChain chain) ref) (TopologicalFold.visit (graph repr x) fuel chain ref) := by
  induction fuel generalizing chain ref with
  | zero => exact fun _ => rfl
  | succ fuel ih =>
    rw [visit, TopologicalFold.visit]
    apply (Mirrors.settle (template x ref)).bind
    rintro ⟨key, body⟩
    have hChain : (shownChain chain).map Prod.fst = chain.map Prod.fst := by
      rw [shownChain, List.map_map]
      rfl
    dsimp only
    rw [hChain]
    by_cases hCycle : key ∈ chain.map Prod.fst
    · rw [if_pos hCycle, if_pos hCycle]
      intro order
      simp only [shownChain, List.map_map]
      rfl
    · rw [if_neg hCycle, if_neg hCycle]
      apply Mirrors.get
      intro order
      change Mirrors (if key ∈ order.keys then _ else _) _
      by_cases hDone : key ∈ order.keys
      · rw [if_pos hDone, if_pos hDone]
        exact fun _ => rfl
      · rw [if_neg hDone, if_neg hDone]
        apply (Mirrors.settle (parents repr ref body)).bind
        intro refs
        apply Mirrors.bind
        · apply Mirrors.forM
          intro parent
          have hLonger : shownChain chain ++ [(key, ref.shown)] = shownChain (chain ++ [(key, ref)]) := by
            rw [shownChain, shownChain, List.map_append]
            rfl
          rw [hLonger]
          exact ih (chain ++ [(key, ref)]) parent
        · intro u order'
          have hAdd : (walkOf order').add ref.label key (pop body.block "extends") =
              walkOf (order' ++ [(ref, key, body)]) := by
            simp [walkOf, Walk.add, Order.keys]
          change some (Except.ok (u, (walkOf order').add ref.label key (pop body.block "extends"))) = _
          rw [hAdd]
          rfl

/-! ## What an expansion answers -/

def rootsOf (vs : List Val) : List (Ref P) := vs.map fun v => ⟨v, x.configDir, false⟩

/-- The layers of an order in which each template the block reaches stands once, after all it extends. -/
structure Layered (raw : Dict) (vs : List Val) (order : Order (Ref P) (Key P) (Body P)) (layers : List Dict) : Prop where
  clean : MeetsIn (graph repr x) [] (rootsOf x vs) none
  once : order.keys.Nodup
  reached : ∀ n, (graph repr x).Reachable (rootsOf x vs) n ↔ ∃ item ∈ order, item.2 = n
  acyclic : ∀ n, (graph repr x).Reachable (rootsOf x vs) n → ¬Relation.TransGen (graph repr x).Refers n n
  bases_first : ∀ earlier item later, order = earlier ++ item :: later →
    ∀ n, (graph repr x).Refers item.2 n → ∃ m ∈ earlier, m.2 = n
  layers_eq : layers = order.map (fun item => pop item.2.2.block "extends") ++ [pop raw "extends"]

/-- The expansion of a target's block is a topological fold of the templates its `extends` reaches: it stops at a cycle
exactly when that is the first problem on the paths, which then hold a template that reaches itself. -/
structure Folds (raw : Dict) (answer : Except Refusal (List Dict)) : Prop where
  cycle : ∀ path, answer = .error (.cycle path) ↔ ∃ vs chain ref, entries (get raw "extends") = .ok vs ∧
    MeetsIn (graph repr x) [] (rootsOf x vs) (some (.cycle chain ref)) ∧
      path = chain.map (fun item => item.2.shown) ++ [ref.shown]
  loops : ∀ path, answer = .error (.cycle path) → ∃ vs, entries (get raw "extends") = .ok vs ∧
    ∃ n, (graph repr x).Reachable (rootsOf x vs) n ∧ Relation.TransGen (graph repr x).Refers n n
  returned : ∀ layers, answer = .ok layers → ∃ vs order, entries (get raw "extends") = .ok vs ∧
    Layered repr x raw vs order layers
  refused : ∀ e, answer = .error e → (∀ path, e ≠ .cycle path) → entries (get raw "extends") = .error e ∨
    ∃ vs, entries (get raw "extends") = .ok vs ∧
      (MeetsIn (graph repr x) [] (rootsOf x vs) (some (.refused e)) ∨
        MeetsIn (graph repr x) [] (rootsOf x vs) none ∧
          ∃ firstLabel first label platform, e = .platforms firstLabel first label platform ∧ first ≠ platform)

section Errors

omit [DecidableEq P]

variable {x repr}

theorem entries_error {value : Option Val} {e : Refusal} (h : entries value = .error e) (path : List String) :
    e ≠ .cycle path := by
  rw [entries.eq_def] at h
  split at h
  · cases h
  · cases h
  · cases h
  · cases h
  · cases h
    nofun

theorem parents_error {ref : Ref P} {body : Body P} {e : Refusal} (h : parents repr ref body = .error e)
    (path : List String) : e ≠ .cycle path := by
  rw [parents] at h
  split at h
  · cases h
    nofun
  · cases hEntries : entries (get body.block "extends") with
    | ok vs =>
      rw [hEntries] at h
      cases h
    | error e' =>
      rw [hEntries] at h
      cases h
      exact entries_error hEntries path

theorem refusal_ne (ref : String) (e : ReadError) (path : List String) : e.refusal ref ≠ .cycle path := by
  cases e with
  | unreadable text => nofun
  | invalid text => nofun

theorem readFile_error {ref : String} {base : Option P} {e : Refusal} (h : readFile x ref base = .error e)
    (path : List String) : e ≠ .cycle path := by
  rw [readFile.eq_def] at h
  split at h
  · split at h
    · cases h
      exact refusal_ne ref _ path
    · split at h
      · cases h
        exact refusal_ne ref _ path
      · cases h
      · cases h
  · cases h
    nofun

theorem template_error {ref : Ref P} {e : Refusal} (h : template x ref = .error e) (path : List String) :
    e ≠ .cycle path := by
  rw [template] at h
  split at h
  · rename_i e' hLook
    cases h
    rw [lookUp] at hLook
    split at hLook
    · split at hLook
      · cases hLook
        nofun
      · split at hLook
        · split at hLook
          · rename_i hRead
            cases hLook
            exact readFile_error hRead path
          · cases hLook
        · split at hLook
          · cases hLook
            nofun
          · split at hLook
            · cases hLook
              nofun
            · cases hLook
    · cases hLook
      nofun
  · cases h
  · cases h
    nofun

theorem agree_error {items : List (Label × String)} {e : Refusal} (h : agree items = .error e) :
    ∃ firstLabel first label platform, e = .platforms firstLabel first label platform ∧ first ≠ platform := by
  cases items with
  | nil => cases h
  | cons item rest =>
    rw [agree] at h
    split at h
    · rename_i label platform hFind
      cases h
      have hOther := List.find?_some hFind
      exact ⟨item.1, item.2, label, platform, rfl, fun hEq => by simp [hEq] at hOther⟩
    · cases h

end Errors

/-- The answer after the walk over the templates. -/
def answerOf (raw : Dict) : Option (Except Refusal (PUnit × Walk P)) → Option (Except Refusal (List Dict))
  | none => none
  | some (.error e) => some (.error e)
  | some (.ok (_, walk)) =>
    match agree (walk.platforms ++ declared (.target x.target) (pop raw "extends")) with
    | .error e => some (.error e)
    | .ok _ => some (.ok (walk.layers ++ [pop raw "extends"]))

theorem expandExtends_eq {raw : Dict} {vs : List Val} (hEntries : entries (get raw "extends") = .ok vs) (fuel : Nat) :
    expandExtends repr x fuel raw =
      answerOf x raw (Option.map mirrored (fold (graph repr x) fuel (rootsOf x vs) [])) := by
  have hMirror : Mirrors ((rootsOf x vs).forM (visit repr x fuel [])) (fold (graph repr x) fuel (rootsOf x vs)) :=
    Mirrors.forM fun ref => visit_mirrors repr x fuel [] ref
  rw [expandExtends, hEntries, ← hMirror []]
  rfl

/-- What the fold over the templates and the check of the platforms make of a block. -/
theorem folds_of_fold {fuel : Nat} {raw : Dict} {vs : List Val} {answer : Except Refusal (List Dict)}
    (hEntries : entries (get raw "extends") = .ok vs) (h : expandExtends repr x fuel raw = some answer) :
    (∃ stop, MeetsIn (graph repr x) [] (rootsOf x vs) (some stop) ∧ answer = .error (refusalOf stop)) ∨
      MeetsIn (graph repr x) [] (rootsOf x vs) none ∧
        ((∃ e, answer = .error e ∧
            ∃ firstLabel first label platform, e = .platforms firstLabel first label platform ∧ first ≠ platform) ∨
          ∃ order layers, answer = .ok layers ∧ Layered repr x raw vs order layers) := by
  rw [expandExtends_eq repr x hEntries] at h
  cases hFold : fold (graph repr x) fuel (rootsOf x vs) [] with
  | none =>
    rw [hFold] at h
    cases h
  | some result =>
    rw [hFold] at h
    cases result with
    | error stop =>
      cases h
      exact .inl ⟨stop, fold_meets hFold, rfl⟩
    | ok value =>
      obtain ⟨u, order⟩ := value
      have hAdded := fold_added hFold
      refine .inr ⟨fold_meets_none hFold, ?_⟩
      dsimp only [Option.map_some, mirrored, answerOf] at h
      cases hAgree : agree ((walkOf order).platforms ++ declared (.target x.target) (pop raw "extends")) with
      | error e =>
        rw [hAgree] at h
        cases h
        exact .inl ⟨e, rfl, agree_error hAgree⟩
      | ok _ =>
        rw [hAgree] at h
        cases h
        refine .inr ⟨order, _, rfl, fold_meets_none hFold, hAdded.topological.distinct, fun n => hAdded.reachable, ?_, ?_,
          rfl⟩
        · intro n hReach
          obtain ⟨item, hMem, rfl⟩ := hAdded.reachable.mp hReach
          exact hAdded.topological.acyclic hMem
        · intro earlier item later hSplit n hRefers
          exact hAdded.topological.refers hSplit hRefers

theorem expandExtends_ends {fuel : Nat} (hFuel : x.templates.length + x.files.existing.length < fuel) (raw : Dict) :
    ∃ answer, expandExtends repr x fuel raw = some answer := by
  cases hEntries : entries (get raw "extends") with
  | error e =>
    rw [expandExtends, hEntries]
    exact ⟨_, rfl⟩
  | ok vs =>
    have hKeys : ∀ i k b, (graph repr x).node i = .ok (k, b) →
        k ∈ x.templates.map (fun item => Key.inline item.1) ++ x.files.existing.map Key.file :=
      fun _ _ _ hNode => (template_body x hNode).2
    have hHalts := fold_halts hKeys (by simpa using hFuel) (rootsOf x vs)
    rw [expandExtends_eq repr x hEntries]
    cases hFold : fold (graph repr x) fuel (rootsOf x vs) [] with
    | none => exact absurd hFold (hHalts [])
    | some result =>
      cases result with
      | error stop => exact ⟨_, rfl⟩
      | ok value =>
        rw [Option.map_some, mirrored, answerOf]
        split
        · exact ⟨_, rfl⟩
        · exact ⟨_, rfl⟩

/-- Where a block's own `extends` is well formed, its answer is decided by the first problem on the paths. -/
theorem folds_of_entries {fuel : Nat} {raw : Dict} {vs : List Val} {answer : Except Refusal (List Dict)}
    (hEntries : entries (get raw "extends") = .ok vs) (h : expandExtends repr x fuel raw = some answer) :
    Folds repr x raw answer := by
  have hOwn : ∀ {vs'}, entries (get raw "extends") = .ok vs' → vs' = vs :=
    fun h' => Except.ok.inj (h'.symm.trans hEntries)
  obtain ⟨stop, hMeets, rfl⟩ | ⟨hClean, ⟨e, rfl, hPlatforms⟩ | ⟨order, layers, rfl, hLayered⟩⟩ :=
    folds_of_fold repr x hEntries h
  · constructor
    · intro path
      constructor
      · intro hCycle
        cases stop with
        | refused e =>
          obtain ⟨j, hNode | ⟨b, hRefs⟩⟩ := MeetsIn.refusal rfl hMeets
          · exact absurd (Except.error.inj hCycle) (template_error hNode path)
          · exact absurd (Except.error.inj hCycle) (parents_error hRefs path)
        | cycle chain ref =>
          cases hCycle
          exact ⟨vs, chain, ref, hEntries, hMeets, rfl⟩
      · rintro ⟨vs', chain, ref, hEntries', hMeets', rfl⟩
        rw [hOwn hEntries'] at hMeets'
        cases MeetsIn.unique hMeets hMeets'
        rfl
    · intro path hCycle
      cases stop with
      | refused e =>
        obtain ⟨j, hNode | ⟨b, hRefs⟩⟩ := MeetsIn.refusal rfl hMeets
        · exact absurd (Except.error.inj hCycle) (template_error hNode path)
        · exact absurd (Except.error.inj hCycle) (parents_error hRefs path)
      | cycle chain ref => exact ⟨vs, hEntries, hMeets.exists_cycle⟩
    · nofun
    · intro e hError hNot
      cases stop with
      | refused e' =>
        cases hError
        exact .inr ⟨vs, hEntries, .inl hMeets⟩
      | cycle chain ref => exact absurd (Except.error.inj hError).symm (hNot _)
  · obtain ⟨firstLabel, first, label, platform, rfl, hNe⟩ := hPlatforms
    constructor
    · intro path
      constructor
      · nofun
      · rintro ⟨vs', chain, ref, hEntries', hMeets', rfl⟩
        rw [hOwn hEntries'] at hMeets'
        cases MeetsIn.unique hClean hMeets'
    · nofun
    · nofun
    · intro e hError _
      cases hError
      exact .inr ⟨vs, hEntries, .inr ⟨hClean, firstLabel, first, label, platform, rfl, hNe⟩⟩
  · constructor
    · intro path
      constructor
      · nofun
      · rintro ⟨vs', chain, ref, hEntries', hMeets', rfl⟩
        rw [hOwn hEntries'] at hMeets'
        cases MeetsIn.unique hClean hMeets'
    · nofun
    · intro layers' hOk
      cases hOk
      exact ⟨vs, order, hEntries, hLayered⟩
    · nofun

/-- The expansion of every target ends, and is a topological fold of its templates. -/
theorem expandExtends_folds (raw : Dict) : ∃ enough, ∀ fuel, enough < fuel →
    ∃ answer, expandExtends repr x fuel raw = some answer ∧ Folds repr x raw answer := by
  refine ⟨x.templates.length + x.files.existing.length, fun fuel hFuel => ?_⟩
  obtain ⟨answer, h⟩ := expandExtends_ends repr x hFuel raw
  refine ⟨answer, h, ?_⟩
  cases hEntries : entries (get raw "extends") with
  | ok vs => exact folds_of_entries repr x hEntries h
  | error e =>
    rw [expandExtends, hEntries] at h
    cases h
    constructor
    · intro path
      constructor
      · exact fun hCycle => absurd (Except.error.inj hCycle) (entries_error hEntries path)
      · rintro ⟨vs, -, -, hEntries', -⟩
        cases hEntries.symm.trans hEntries'
    · exact fun path hCycle => absurd (Except.error.inj hCycle) (entries_error hEntries path)
    · nofun
    · intro e' hError _
      cases hError
      exact .inl hEntries

end Expansions

end Bajutsu.Config.Templates
