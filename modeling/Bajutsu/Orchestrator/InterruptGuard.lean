import Bajutsu.Lib.History
import Bajutsu.Lib.Streak

/-!
# The interrupt guard of one step

`_InterruptGuard`: each entry's condition is judged on the tree the loop holds, its recovery runs when it matches, and
before an act the passes repeat on re-read trees. What the driver and the recoveries answer is a sequence, one item a
pass, so every device and every outcome of the recoveries is some `World`.
-/

namespace Bajutsu.Orchestrator.InterruptGuard
open Streak

/-- `_INTERRUPT_MAX_FIRES` -/
def interruptMaxFires : Nat := 3

variable {Condition Step Tree Network Attributes : Type}

structure Interrupt (Condition Step : Type) where
  condition : Condition
  steps : List Step

/-- Tree 0 is the one the loop already read; tree `k + 1` is what the re-read after pass `k` returns. `attributes k i` is
what `_with_attributes` reads beside tree `k` for entry `i`, and `recovery k i` what that entry's steps end with there. -/
structure World (Tree Network Attributes : Type) where
  tree : Nat → Tree
  network : Nat → Network
  attributes : Nat → Nat → Attributes
  recovery : Nat → Nat → Option String

/-- `passed(evaluate(..))` of a condition already interpolated by `_interp_asserts`. -/
structure Judge (Condition Tree Network Attributes : Type) where
  interpAsserts : Condition → Condition
  passed : Condition → Tree → Network → Attributes → Bool

structure Guard (Step : Type) where
  fires : Nat → Nat
  failure : Option String
  /-- The trees read after the first one. -/
  reads : Nat
  /-- Every recovery run so far, oldest first, and how it ended. -/
  recoveries : List (List Step × Option String)

def Guard.fresh : Guard Step := ⟨fun _ => 0, none, 0, []⟩

variable (judge : Judge Condition Tree Network Attributes) (world : World Tree Network Attributes)

/-- `_fire_once` from entry `i` on, `fired` telling whether an entry before it did. -/
def fireFrom (elements : Tree) : Nat → List (Interrupt Condition Step) → Bool → Guard Step → Bool × Guard Step
  | _, [], fired, g => (fired, g)
  | i, entry :: rest, fired, g =>
    if g.failure.isSome then (fired, g)
    else if interruptMaxFires ≤ g.fires i then fireFrom elements (i + 1) rest fired g
    else if judge.passed (judge.interpAsserts entry.condition) elements (world.network g.reads)
        (world.attributes g.reads i) then
      let failure := world.recovery g.reads i
      let g := { g with
        fires := Function.update g.fires i (g.fires i + 1)
        recoveries := g.recoveries ++ [(entry.steps, failure)] }
      if failure.isSome then (fired, { g with failure })
      else fireFrom elements (i + 1) rest true g
    else fireFrom elements (i + 1) rest fired { g with fires := Function.update g.fires i 0 }

def fireOnce (interrupts : List (Interrupt Condition Step)) (elements : Tree) (g : Guard Step) : Bool × Guard Step :=
  fireFrom judge world elements 0 interrupts false g

/-- `driver.query()` -/
def query (g : Guard Step) : Tree × Guard Step := (world.tree (g.reads + 1), { g with reads := g.reads + 1 })

/-- `clear_before_act`, for at most `fuel` turns of its loop. -/
def clearBeforeAct (interrupts : List (Interrupt Condition Step)) : Nat → Tree → Guard Step →
    Option (Tree × Guard Step)
  | 0, _, _ => none
  | fuel + 1, elements, g =>
    if g.failure.isSome then some (elements, g)
    else
      match fireOnce judge world interrupts elements g with
      | (false, g) => some (elements, g)
      | (true, g) => clearBeforeAct interrupts fuel (query world g).1 (query world g).2

/-- Entry `i`'s condition is met by the `k`-th tree. -/
def Matched (interrupts : List (Interrupt Condition Step)) (i k : Nat) : Prop :=
  ∃ entry, interrupts[i]? = some entry ∧
    judge.passed (judge.interpAsserts entry.condition) (world.tree k) (world.network k) (world.attributes k i) = true

instance (interrupts : List (Interrupt Condition Step)) (i : Nat) :
    DecidablePred (Matched judge world interrupts i) := fun k =>
  match h : interrupts[i]? with
  | none => .isFalse fun ⟨_, hEntry, _⟩ => by rw [h] at hEntry; cases hEntry
  | some entry =>
    if hPassed : judge.passed (judge.interpAsserts entry.condition) (world.tree k) (world.network k)
        (world.attributes k i) = true then
      .isTrue ⟨entry, h, hPassed⟩
    else .isFalse fun ⟨_, hEntry, hp⟩ => hPassed (by rw [h] at hEntry; cases hEntry; exact hp)

/-- Entry `i` is still listened to at pass `k`, and its condition is met there. -/
def Acts (interrupts : List (Interrupt Condition Step)) (i k : Nat) : Prop :=
  Matched judge world interrupts i k ∧ ¬Full interruptMaxFires (Matched judge world interrupts i) k

/-- At pass `k` a recovery fails, or no entry acts: each one met there was met on three trees in a row before. -/
def SettlesAt (interrupts : List (Interrupt Condition Step)) (k : Nat) : Prop :=
  (∃ i, Acts judge world interrupts i k ∧ (world.recovery k i).isSome) ∨ ∀ i, ¬Acts judge world interrupts i k

def Settles (interrupts : List (Interrupt Condition Step)) : Prop := ∃ k, SettlesAt judge world interrupts k

/-- A recovery that failed is the last one. -/
def NoneAfterFailure (recoveries : List (List Step × Option String)) : Prop :=
  ∀ before r later, recoveries = before ++ r :: later → r.2.isSome → later = []

/-- What the caller of `clear_before_act` is promised, for the guard of a new step. -/
def Clears (interrupts : List (Interrupt Condition Step)) : Prop :=
  ∃ enough elements g,
    (∀ fuel, enough ≤ fuel →
      clearBeforeAct judge world interrupts fuel (world.tree 0) Guard.fresh = some (elements, g)) ∧
    elements = world.tree g.reads ∧ NoneAfterFailure g.recoveries

section Pass

variable {judge : Judge Condition Tree Network Attributes} {world : World Tree Network Attributes}
  {interrupts rest : List (Interrupt Condition Step)} {entry : Interrupt Condition Step} {g : Guard Step} {i k : Nat}
  {fired : Bool}

theorem matched_iff (h : interrupts[i]? = some entry) :
    Matched judge world interrupts i k ↔
      judge.passed (judge.interpAsserts entry.condition) (world.tree k) (world.network k) (world.attributes k i) = true := by
  constructor
  · rintro ⟨entry', hEntry, hPassed⟩
    rw [h] at hEntry
    cases hEntry
    exact hPassed
  · intro hPassed
    exact ⟨entry, h, hPassed⟩

/-- The guard after entry `i` ran its recovery. -/
def Guard.ran (g : Guard Step) (i : Nat) (steps : List Step) (failure : Option String) : Guard Step :=
  { g with
    fires := Function.update g.fires i (g.fires i + 1)
    recoveries := g.recoveries ++ [(steps, failure)] }

/-- The guard after entry `i` ran nothing. -/
def Guard.counted (g : Guard Step) (i count : Nat) : Guard Step := { g with fires := Function.update g.fires i count }

@[simp] theorem ran_reads (steps : List Step) (failure : Option String) : (g.ran i steps failure).reads = g.reads := rfl

@[simp] theorem ran_fires_self (steps : List Step) (failure : Option String) :
    (g.ran i steps failure).fires i = g.fires i + 1 :=
  Function.update_self ..

@[simp] theorem ran_fires_ne (steps : List Step) (failure : Option String) {j : Nat} (h : j ≠ i) :
    (g.ran i steps failure).fires j = g.fires j :=
  Function.update_of_ne h ..

@[simp] theorem counted_reads (count : Nat) : (g.counted i count).reads = g.reads := rfl

@[simp] theorem counted_fires_self (count : Nat) : (g.counted i count).fires i = count := Function.update_self ..

@[simp] theorem counted_fires_ne (count : Nat) {j : Nat} (h : j ≠ i) : (g.counted i count).fires j = g.fires j :=
  Function.update_of_ne h ..

theorem fireFrom_acts (hEntry : interrupts[i]? = some entry) (hFailure : g.failure = none)
    (hMatched : Matched judge world interrupts i g.reads) (hFires : g.fires i < interruptMaxFires) :
    fireFrom judge world (world.tree g.reads) i (entry :: rest) fired g =
      if (world.recovery g.reads i).isSome then
        (fired, { g.ran i entry.steps (world.recovery g.reads i) with failure := world.recovery g.reads i })
      else fireFrom judge world (world.tree g.reads) (i + 1) rest true
        (g.ran i entry.steps (world.recovery g.reads i)) := by
  rw [fireFrom, if_neg (by rw [hFailure]; simp), if_neg (by omega), if_pos ((matched_iff hEntry).mp hMatched)]
  rfl

theorem fireFrom_skips (hEntry : interrupts[i]? = some entry) (hFailure : g.failure = none)
    (hIdle : ¬(Matched judge world interrupts i g.reads ∧ g.fires i < interruptMaxFires)) :
    fireFrom judge world (world.tree g.reads) i (entry :: rest) fired g =
      fireFrom judge world (world.tree g.reads) (i + 1) rest fired
        (g.counted i (tick interruptMaxFires (Matched judge world interrupts i g.reads) (g.fires i))) := by
  rw [fireFrom, if_neg (by rw [hFailure]; simp), Guard.counted, tick]
  split
  · rw [Function.update_eq_self]
  · rename_i hFires
    have hMatched : ¬Matched judge world interrupts i g.reads := fun h => hIdle ⟨h, by omega⟩
    rw [if_neg fun h => hMatched ((matched_iff hEntry).mpr h), if_neg hMatched]

def Quiet (recoveries : List (List Step × Option String)) : Prop := ∀ r ∈ recoveries, r.2 = none

theorem quiet_snoc {recoveries : List (List Step × Option String)} (h : Quiet recoveries) (steps : List Step) :
    Quiet (recoveries ++ [(steps, none)]) := by
  intro r hr
  rcases List.mem_append.mp hr with hr | hr
  · exact h r hr
  · rw [List.mem_singleton.mp hr]

theorem noneAfterFailure_quiet {recoveries : List (List Step × Option String)} (h : Quiet recoveries) :
    NoneAfterFailure recoveries := by
  rintro before r later rfl hFailed
  rw [h r (by simp)] at hFailed
  cases hFailed

theorem noneAfterFailure_snoc {recoveries : List (List Step × Option String)} (h : Quiet recoveries)
    (last : List Step × Option String) : NoneAfterFailure (recoveries ++ [last]) := by
  intro before r later hEq hFailed
  obtain ⟨hLater, -, -⟩ | ⟨rest, -, rfl⟩ := History.split_snoc hEq
  · exact hLater
  · rw [h r (by simp)] at hFailed
    cases hFailed

/-- Entry `j` would act at the pass in hand, by the counts `count` it began with. -/
def Due (judge : Judge Condition Tree Network Attributes) (world : World Tree Network Attributes)
    (interrupts : List (Interrupt Condition Step)) (k : Nat) (count : Nat → Nat) (j : Nat) : Prop :=
  Matched judge world interrupts j k ∧ count j < interruptMaxFires

theorem due_lt {count : Nat → Nat} {j : Nat} (h : Due judge world interrupts k count j) : j < interrupts.length := by
  obtain ⟨⟨_, hEntry, -⟩, -⟩ := h
  exact (List.getElem?_eq_some_iff.mp hEntry).1

/-- A pass in which no due entry's recovery fails: every count ticks, and it fired if an entry was due. -/
structure Ticked (judge : Judge Condition Tree Network Attributes) (world : World Tree Network Attributes)
    (interrupts : List (Interrupt Condition Step)) (i : Nat) (count : Nat → Nat) (fired : Bool) (g : Guard Step)
    (out : Bool × Guard Step) : Prop where
  fired_iff : out.1 = true ↔ fired = true ∨ ∃ j, i ≤ j ∧ Due judge world interrupts g.reads count j
  failure : out.2.failure = none
  reads : out.2.reads = g.reads
  quiet : Quiet out.2.recoveries
  before : ∀ j < i, out.2.fires j = g.fires j
  fires : ∀ j, i ≤ j → j < interrupts.length →
    out.2.fires j = tick interruptMaxFires (Matched judge world interrupts j g.reads) (count j)

theorem Ticked.of_next {count : Nat → Nat} {g' : Guard Step} {fired' : Bool} {out : Bool × Guard Step}
    (h : Ticked judge world interrupts (i + 1) count fired' g' out) (hReads : g'.reads = g.reads)
    (hFired : fired' = true ↔ fired = true ∨ Due judge world interrupts g.reads count i)
    (hHere : g'.fires i = tick interruptMaxFires (Matched judge world interrupts i g.reads) (count i))
    (hOther : ∀ j, j ≠ i → g'.fires j = g.fires j) : Ticked judge world interrupts i count fired g out := by
  refine ⟨?_, h.failure, h.reads.trans hReads, h.quiet, ?_, ?_⟩
  · rw [h.fired_iff, hFired, hReads]
    constructor
    · rintro ((hFired | hDue) | ⟨j, hj, hDue⟩)
      · exact .inl hFired
      · exact .inr ⟨i, Nat.le_refl i, hDue⟩
      · exact .inr ⟨j, by omega, hDue⟩
    · rintro (hFired | ⟨j, hj, hDue⟩)
      · exact .inl (.inl hFired)
      · rcases Nat.eq_or_lt_of_le hj with rfl | hLt
        · exact .inl (.inr hDue)
        · exact .inr ⟨j, hLt, hDue⟩
  · intro j hj
    rw [h.before j (by omega), hOther j (by omega)]
  · intro j hi hj
    rcases Nat.eq_or_lt_of_le hi with rfl | hLt
    · rw [h.before i (by omega), hHere]
    · rw [← hReads]
      exact h.fires j hLt hj

theorem get_of_drop (h : interrupts.drop i = entry :: rest) :
    interrupts[i]? = some entry ∧ interrupts.drop (i + 1) = rest := by
  constructor
  · rw [← List.head?_drop, h, List.head?_cons]
  · rw [← List.tail_drop, h, List.tail_cons]

theorem fireFrom_ticked {count : Nat → Nat} (hRest : interrupts.drop i = rest) (hFailure : g.failure = none)
    (hQuiet : Quiet g.recoveries) (hCount : ∀ j, i ≤ j → g.fires j = count j)
    (hOk : ∀ j, i ≤ j → Due judge world interrupts g.reads count j → world.recovery g.reads j = none) :
    Ticked judge world interrupts i count fired g
      (fireFrom judge world (world.tree g.reads) i rest fired g) := by
  induction rest generalizing i g fired with
  | nil =>
    have hLen : interrupts.length ≤ i := List.drop_eq_nil_iff.mp hRest
    refine ⟨?_, hFailure, rfl, hQuiet, fun _ _ => rfl, fun j hi hj => by omega⟩
    constructor
    · exact .inl
    · rintro (h | ⟨j, hi, hDue⟩)
      · exact h
      · have := due_lt hDue
        omega
  | cons entry rest ih =>
    obtain ⟨hEntry, hNext⟩ := get_of_drop hRest
    have hi := hCount i (Nat.le_refl i)
    by_cases hDue : Due judge world interrupts g.reads count i
    · rw [fireFrom_acts hEntry hFailure hDue.1 (by rw [hi]; exact hDue.2), hOk i (Nat.le_refl i) hDue,
        if_neg (by simp)]
      have h := @ih (g.ran i entry.steps none) (i + 1) true hNext hFailure (quiet_snoc hQuiet entry.steps)
        (fun j hj => by
          rw [ran_fires_ne _ _ (by omega)]
          exact hCount j (by omega))
        (fun j hj => hOk j (by omega))
      refine h.of_next rfl ⟨fun _ => .inr hDue, fun _ => rfl⟩ ?_ fun j hj => ran_fires_ne _ _ hj
      rw [ran_fires_self, hi, tick, if_neg (by have := hDue.2; omega), if_pos hDue.1]
    · rw [fireFrom_skips hEntry hFailure (by rw [hi]; exact hDue)]
      have h := @ih (g.counted i (tick interruptMaxFires (Matched judge world interrupts i g.reads) (g.fires i))) (i + 1) fired hNext
        hFailure hQuiet
        (fun j hj => by
          rw [counted_fires_ne _ (by omega)]
          exact hCount j (by omega))
        (fun j hj => hOk j (by omega))
      refine h.of_next rfl ⟨.inl, fun hOr => hOr.resolve_right hDue⟩ ?_ fun j hj => counted_fires_ne _ hj
      rw [counted_fires_self, hi]

/-- A pass in which a due entry's recovery fails: that recovery is the last. -/
structure Failed (g : Guard Step) (out : Guard Step) : Prop where
  failure : out.failure.isSome
  reads : out.reads = g.reads
  last : NoneAfterFailure out.recoveries

theorem fireFrom_failed {count : Nat → Nat} (hRest : interrupts.drop i = rest) (hFailure : g.failure = none)
    (hQuiet : Quiet g.recoveries) (hCount : ∀ j, i ≤ j → g.fires j = count j) {j : Nat} (hj : i ≤ j)
    (hDue : Due judge world interrupts g.reads count j) (hFails : (world.recovery g.reads j).isSome) :
    Failed g (fireFrom judge world (world.tree g.reads) i rest fired g).2 := by
  induction rest generalizing i g fired with
  | nil =>
    have hLen : interrupts.length ≤ i := List.drop_eq_nil_iff.mp hRest
    have := due_lt hDue
    omega
  | cons entry rest ih =>
    obtain ⟨hEntry, hNext⟩ := get_of_drop hRest
    have hi := hCount i (Nat.le_refl i)
    by_cases hHere : Due judge world interrupts g.reads count i
    · rw [fireFrom_acts hEntry hFailure hHere.1 (by rw [hi]; exact hHere.2)]
      split
      · rename_i hFailed
        exact ⟨hFailed, rfl, noneAfterFailure_snoc hQuiet _⟩
      · rename_i hNone
        rw [Option.not_isSome_iff_eq_none] at hNone
        rw [hNone]
        have hLt : i < j := by
          rcases Nat.eq_or_lt_of_le hj with rfl | hLt
          · rw [hNone] at hFails
            cases hFails
          · exact hLt
        have h := @ih (g.ran i entry.steps none) (i + 1) true hNext hFailure (quiet_snoc hQuiet entry.steps)
          (fun j hj => by
            rw [ran_fires_ne _ _ (by omega)]
            exact hCount j (by omega))
          hLt hDue hFails
        exact ⟨h.failure, h.reads, h.last⟩
    · rw [fireFrom_skips hEntry hFailure (by rw [hi]; exact hHere)]
      have hLt : i < j := by
        rcases Nat.eq_or_lt_of_le hj with rfl | hLt
        · exact absurd hDue hHere
        · exact hLt
      have h := @ih (g.counted i (tick interruptMaxFires (Matched judge world interrupts i g.reads) (g.fires i))) (i + 1) fired hNext
        hFailure hQuiet
        (fun j hj => by
          rw [counted_fires_ne _ (by omega)]
          exact hCount j (by omega))
        hLt hDue hFails
      exact ⟨h.failure, h.reads, h.last⟩

end Pass

section Run

variable {judge : Judge Condition Tree Network Attributes} {world : World Tree Network Attributes}
  {interrupts : List (Interrupt Condition Step)} {g : Guard Step} {k : Nat}

/-- The guard before pass `k`: every pass so far fired, and no recovery failed. -/
structure Clearing (judge : Judge Condition Tree Network Attributes) (world : World Tree Network Attributes)
    (interrupts : List (Interrupt Condition Step)) (k : Nat) (g : Guard Step) : Prop where
  failure : g.failure = none
  reads : g.reads = k
  quiet : Quiet g.recoveries
  fires : ∀ i < interrupts.length, g.fires i = streak interruptMaxFires (Matched judge world interrupts i) k

theorem clearing_fresh : Clearing judge world interrupts 0 (Guard.fresh : Guard Step) :=
  ⟨rfl, rfl, fun _ h => absurd h List.not_mem_nil, fun _ _ => rfl⟩

theorem Clearing.due_iff (h : Clearing judge world interrupts k g) {i : Nat} :
    Due judge world interrupts k g.fires i ↔ Acts judge world interrupts i k := by
  apply and_congr_right
  intro hMatched
  obtain ⟨_, hEntry, -⟩ := hMatched
  rw [h.fires i (List.getElem?_eq_some_iff.mp hEntry).1, ← Nat.not_le, cap_le_streak_iff]

theorem Clearing.ticked (h : Clearing judge world interrupts k g)
    (hOk : ∀ i, Acts judge world interrupts i k → world.recovery k i = none) :
    Ticked judge world interrupts 0 g.fires false g (fireOnce judge world interrupts (world.tree k) g) := by
  obtain rfl := h.reads
  exact fireFrom_ticked rfl h.failure h.quiet (fun _ _ => rfl) fun i _ hDue => hOk i (h.due_iff.mp hDue)

theorem Clearing.next (h : Clearing judge world interrupts k g) (hNot : ¬SettlesAt judge world interrupts k) :
    ∃ g', fireOnce judge world interrupts (world.tree k) g = (true, g') ∧ (query world g').1 = world.tree (k + 1) ∧
      Clearing judge world interrupts (k + 1) (query world g').2 := by
  obtain ⟨hFails, hActs⟩ := not_or.mp hNot
  have hTicked := h.ticked fun i hi => by
    rw [← Option.not_isSome_iff_eq_none]
    exact fun hSome => hFails ⟨i, hi, hSome⟩
  have hFired : (fireOnce judge world interrupts (world.tree k) g).1 = true := by
    obtain ⟨i, hi⟩ := not_forall_not.mp hActs
    obtain rfl := h.reads
    exact hTicked.fired_iff.mpr (.inr ⟨i, Nat.zero_le i, h.due_iff.mpr hi⟩)
  have hReads : (fireOnce judge world interrupts (world.tree k) g).2.reads = k := hTicked.reads.trans h.reads
  refine ⟨_, Prod.ext hFired rfl, ?_, hTicked.failure, ?_, hTicked.quiet, ?_⟩
  · rw [query, hReads]
  · rw [query, hReads]
  · intro i hi
    have hFires := hTicked.fires i (Nat.zero_le i) hi
    rw [h.reads] at hFires
    rw [streak, ← h.fires i hi]
    exact hFires

theorem Clearing.settled (h : Clearing judge world interrupts k g) (hAt : SettlesAt judge world interrupts k) :
    ∃ elements g', clearBeforeAct judge world interrupts 2 (world.tree k) g = some (elements, g') ∧
      elements = world.tree g'.reads ∧ NoneAfterFailure g'.recoveries := by
  rw [clearBeforeAct, if_neg (by rw [h.failure]; simp)]
  by_cases hFails : ∃ i, Acts judge world interrupts i k ∧ (world.recovery k i).isSome
  · obtain ⟨i, hi, hFails⟩ := hFails
    have hFailed : Failed g (fireOnce judge world interrupts (world.tree k) g).2 := by
      obtain rfl := h.reads
      exact fireFrom_failed rfl h.failure h.quiet (fun _ _ => rfl) (Nat.zero_le i) (h.due_iff.mpr hi) hFails
    have hReads := hFailed.reads.trans h.reads
    split
    · rename_i g' hOut
      rw [hOut] at hFailed hReads
      exact ⟨_, g', rfl, congrArg world.tree hReads.symm, hFailed.last⟩
    · rename_i g' hOut
      rw [hOut] at hFailed
      rw [clearBeforeAct, if_pos (show (query world g').2.failure.isSome from hFailed.failure)]
      exact ⟨_, _, rfl, rfl, hFailed.last⟩
  · have hActs := hAt.resolve_left hFails
    have hTicked := h.ticked fun i hi => absurd hi (hActs i)
    have hFired : (fireOnce judge world interrupts (world.tree k) g).1 = false := by
      rw [← Bool.not_eq_true, hTicked.fired_iff]
      rintro (hFalse | ⟨i, -, hDue⟩)
      · cases hFalse
      · obtain rfl := h.reads
        exact hActs i (h.due_iff.mp hDue)
    rw [show fireOnce judge world interrupts (world.tree k) g = (false, _) from Prod.ext hFired rfl]
    refine ⟨_, _, rfl, ?_, noneAfterFailure_quiet hTicked.quiet⟩
    rw [hTicked.reads, h.reads]

theorem Clearing.clears (h : Clearing judge world interrupts k g) {n : Nat}
    (hAt : SettlesAt judge world interrupts (k + n)) :
    ∃ fuel elements g', clearBeforeAct judge world interrupts fuel (world.tree k) g = some (elements, g') ∧
      elements = world.tree g'.reads ∧ NoneAfterFailure g'.recoveries := by
  induction n generalizing k g with
  | zero => exact ⟨2, h.settled hAt⟩
  | succ n ih =>
    by_cases hHere : SettlesAt judge world interrupts k
    · exact ⟨2, h.settled hHere⟩
    · obtain ⟨g', hFire, hTree, hNext⟩ := h.next hHere
      obtain ⟨fuel, out⟩ := ih hNext (by rwa [Nat.add_right_comm])
      refine ⟨fuel + 1, ?_⟩
      rw [clearBeforeAct, if_neg (by rw [h.failure]; simp), hFire]
      change ∃ elements g'', clearBeforeAct judge world interrupts fuel (query world g').1 (query world g').2 = _ ∧ _
      rw [hTree]
      exact out

theorem Clearing.endless (h : Clearing judge world interrupts k g)
    (hNever : ¬∃ n, SettlesAt judge world interrupts n) (fuel : Nat) :
    clearBeforeAct judge world interrupts fuel (world.tree k) g = none := by
  induction fuel generalizing k g with
  | zero => rfl
  | succ fuel ih =>
    obtain ⟨g', hFire, hTree, hNext⟩ := h.next fun hAt => hNever ⟨k, hAt⟩
    rw [clearBeforeAct, if_neg (by rw [h.failure]; simp), hFire]
    change clearBeforeAct judge world interrupts fuel (query world g').1 (query world g').2 = none
    rw [hTree]
    exact ih hNext

theorem clearBeforeAct_of_le {fuel enough : Nat} {elements : Tree} {out : Tree × Guard Step} (hLe : enough ≤ fuel)
    (h : clearBeforeAct judge world interrupts enough elements g = some out) :
    clearBeforeAct judge world interrupts fuel elements g = some out := by
  induction enough generalizing fuel elements g with
  | zero => cases h
  | succ enough ih =>
    obtain ⟨fuel, rfl⟩ : ∃ n, fuel = n + 1 := ⟨fuel - 1, by omega⟩
    rw [clearBeforeAct] at h ⊢
    split at h
    · rename_i hFailed
      rw [if_pos hFailed]
      exact h
    · rename_i hGoes
      rw [if_neg hGoes]
      split at h
      · exact h
      · exact ih (by omega) h

theorem not_clears (hNever : ¬Settles judge world interrupts) : ¬Clears judge world interrupts := by
  rintro ⟨enough, elements, g, hRun, -⟩
  have hRun := hRun enough (Nat.le_refl enough)
  rw [clearing_fresh.endless hNever enough] at hRun
  cases hRun

theorem clear_before_act_iff (judge : Judge Condition Tree Network Attributes) (world : World Tree Network Attributes)
    (interrupts : List (Interrupt Condition Step)) :
    Clears judge world interrupts ↔ Settles judge world interrupts := by
  constructor
  · intro h
    by_contra hNever
    exact not_clears hNever h
  · rintro ⟨k, hAt⟩
    obtain ⟨enough, elements, g, hRun, hLast, hFailure⟩ := clearing_fresh.clears (by rwa [Nat.zero_add k])
    exact ⟨enough, elements, g, fun _ hLe => clearBeforeAct_of_le hLe hRun, hLast, hFailure⟩

end Run

/-- Two interstitials that each uncover the other: the tree has one identifier, and a condition asks for one. -/
def alternating : World (List String) Unit Unit where
  tree k := if k % 2 = 0 then ["cookies"] else ["promo"]
  network _ := ()
  attributes _ _ := ()
  recovery _ _ := none

def existsJudge : Judge String (List String) Unit Unit where
  interpAsserts condition := condition
  passed condition elements _ _ := elements.contains condition

def dismissals : List (Interrupt String String) := [⟨"cookies", ["cookies.close"]⟩, ⟨"promo", ["promo.close"]⟩]

theorem matched_dismissals {i k : Nat} : Matched existsJudge alternating dismissals i k ↔ i = k % 2 := by
  have hCookies : Matched existsJudge alternating dismissals 0 k ↔ 0 = k % 2 := by
    rw [matched_iff rfl]
    rcases Nat.mod_two_eq_zero_or_one k with hk | hk <;> simp [existsJudge, alternating, hk]
  have hPromo : Matched existsJudge alternating dismissals 1 k ↔ 1 = k % 2 := by
    rw [matched_iff rfl]
    rcases Nat.mod_two_eq_zero_or_one k with hk | hk <;> simp [existsJudge, alternating, hk]
  rcases i with _ | _ | i
  · exact hCookies
  · exact hPromo
  · constructor
    · rintro ⟨_, hEntry, -⟩
      cases hEntry
    · intro h
      omega

theorem acts_dismissals (k : Nat) : Acts existsJudge alternating dismissals (k % 2) k := by
  refine ⟨matched_dismissals.mpr rfl, ?_⟩
  rintro ⟨j, -, hRun⟩
  have hFirst := matched_dismissals.mp (hRun 0 (by decide))
  have hSecond := matched_dismissals.mp (hRun 1 (by decide))
  omega

theorem clear_before_act_endless : ¬∀ world, Clears existsJudge world dismissals := by
  intro h
  refine not_clears ?_ (h alternating)
  rintro ⟨k, ⟨i, -, hFails⟩ | hNone⟩
  · cases hFails
  · exact hNone _ (acts_dismissals k)

end Bajutsu.Orchestrator.InterruptGuard
