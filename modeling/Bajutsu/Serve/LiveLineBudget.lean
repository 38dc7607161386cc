import Bajutsu.Lib.History
import Bajutsu.Lib.Recency

/-!
# The live-line budget

How many log lines one job may publish: the counts stand in a table whose oldest jobs give way, the jobs past a cap in
a set.
-/

namespace Bajutsu.Serve.LiveLineBudget

open PyValue Recency History

structure Caps where
  perJob : Nat
  bytesPerJob : Nat

def maxTrackedJobs : Nat := 4096

/-- The lines and bytes of each job, the oldest job first, and the jobs past a cap. -/
structure Budget where
  used : List (String × Nat × Nat)
  truncated : Finset String

inductive Call where
  | admitLines (job : String) (lines : List String)
  | forget (job : String)

def Budget.new : Budget := ⟨[], ∅⟩

def Budget.usedBy (budget : Budget) (job : String) : Nat × Nat := (get budget.used job).getD (0, 0)

/-- The lines that fit under both caps from the front, with the counts after them. -/
def fit (caps : Caps) (lines bytes : Nat) : List String → Nat × Nat × Nat
  | [] => (0, lines, bytes)
  | line :: rest =>
    if caps.perJob ≤ lines ∨ caps.bytesPerJob < bytes + line.utf8ByteSize then (0, lines, bytes)
    else
      let (allowed, used) := fit caps (lines + 1) (bytes + line.utf8ByteSize) rest
      (allowed + 1, used)

/-- The oldest jobs give way while there are too many, and are no longer past a cap. -/
def evict (truncated : Finset String) : List (String × Nat × Nat) → Budget
  | [] => ⟨[], truncated⟩
  | (old, counts) :: used =>
    if maxTrackedJobs < used.length + 1 then evict (truncated.erase old) used else ⟨(old, counts) :: used, truncated⟩

def admitLines (caps : Caps) (job : String) (lines : List String) (budget : Budget) : Budget × Nat × Bool :=
  if job ∈ budget.truncated then (budget, 0, false)
  else
    let (allowed, counts) := fit caps (budget.usedBy job).1 (budget.usedBy job).2 lines
    let kept := evict budget.truncated (touch budget.used job counts)
    let crossed := allowed < lines.length && job ∉ kept.truncated
    (if crossed then { kept with truncated := insert job kept.truncated } else kept, allowed, crossed)

def forget (job : String) (budget : Budget) : Budget := ⟨pop budget.used job, budget.truncated.erase job⟩

/-- A call, the budget before it, and its answer: how many lines were admitted and whether the batch crossed a cap. -/
structure Event where
  before : Budget
  call : Call
  allowed : Nat
  crossed : Bool

def step (caps : Caps) (budget : Budget) : Call → Budget × Event
  | .admitLines job lines =>
    let (after, allowed, crossed) := admitLines caps job lines budget
    (after, ⟨budget, .admitLines job lines, allowed, crossed⟩)
  | .forget job => (forget job budget, ⟨budget, .forget job, 0, false⟩)

/-- The budget after a sequence of calls, and what they answered. -/
def run (caps : Caps) (budget : Budget) : List Call → Budget × List Event
  | [] => (budget, [])
  | call :: calls =>
    let (mid, event) := step caps budget call
    let (fin, events) := run caps mid calls
    (fin, event :: events)

/-! ## What a period of a job admits -/

def Event.lines (job : String) (event : Event) : List String :=
  match event.call with
  | .admitLines i lines => if i = job then lines else []
  | .forget _ => []

def offered (job : String) (events : List Event) : List String := events.flatMap (Event.lines job)

def admitted (job : String) (events : List Event) : List String :=
  events.flatMap fun event => (event.lines job).take event.allowed

def Event.Admits (job : String) (event : Event) : Bool :=
  match event.call with
  | .admitLines i _ => i = job
  | .forget _ => false

def Event.Crosses (job : String) (event : Event) : Bool := event.Admits job && event.crossed

/-- The job was not past a cap when the call came. -/
def Event.Opens (job : String) (event : Event) : Bool := event.Admits job && job ∉ event.before.truncated

/-- The other jobs admitted since the last marked event. -/
def othersSince (job : String) (marked : Event → Bool) (events : List Event) : Finset String :=
  events.foldl
    (fun others event =>
      if marked event then ∅
      else
        match event.call with
        | .admitLines i _ => if i = job then others else insert i others
        | .forget _ => others)
    ∅

def bytes (lines : List String) : Nat := (lines.map String.utf8ByteSize).sum

/-- The live log of a job within a period is a prefix under the caps, and ends for good where the crossing is
reported. -/
structure ClosesForGood (caps : Caps) (job : String) (events : List Event) : Prop where
  isPrefix : admitted job events <+: offered job events
  lines : (admitted job events).length ≤ caps.perJob
  bytes : bytes (admitted job events) ≤ caps.bytesPerJob
  crossing : events.countP (Event.Crosses job) = if admitted job events = offered job events then 0 else 1
  closed : ∀ earlier event later, events = earlier ++ event :: later → event.Crosses job → admitted job later = []

/-- The calls of one period: from the start or a `forget` of the job, up to the next one. -/
structure Period (job : String) (calls period : List Call) : Prop where
  starts : calls = [] ∨ ∃ before, calls = before ++ [.forget job]
  lasts : .forget job ∉ period

/-- Between a marked event and the job's next batch fewer other jobs are admitted than are tracked. -/
def FewOthers (job : String) (marked : Event → Bool) (events : List Event) : Prop :=
  ∀ earlier event later, events = earlier ++ event :: later → event.Admits job → earlier.any (Event.Admits job) →
    (othersSince job marked earlier).card < maxTrackedJobs

/-! ## The table -/

theorem fit_spec (caps : Caps) (lines bytes' : Nat) (batch : List String) :
    (fit caps lines bytes' batch).1 ≤ batch.length ∧
      (fit caps lines bytes' batch).2.1 = lines + (fit caps lines bytes' batch).1 ∧
      (fit caps lines bytes' batch).2.2 = bytes' + bytes (batch.take (fit caps lines bytes' batch).1) ∧
      (lines ≤ caps.perJob → (fit caps lines bytes' batch).2.1 ≤ caps.perJob) ∧
      (bytes' ≤ caps.bytesPerJob → (fit caps lines bytes' batch).2.2 ≤ caps.bytesPerJob) := by
  induction batch generalizing lines bytes' with
  | nil => simp [fit, bytes]
  | cons line rest ih =>
    rw [fit]
    split
    · simp [bytes]
    · rename_i hFits
      obtain ⟨hAllowed, hLines, hBytes, hUnder, hBytesUnder⟩ := ih (lines + 1) (bytes' + line.utf8ByteSize)
      refine ⟨?_, ?_, ?_, ?_, ?_⟩
      · simpa using hAllowed
      · simp only [hLines]
        omega
      · simp only [hBytes, List.take_succ_cons, bytes, List.map_cons, List.sum_cons]
        omega
      · intro _
        exact hUnder (by omega)
      · intro _
        exact hBytesUnder (by omega)

theorem evict_used (truncated : Finset String) (used : List (String × Nat × Nat)) :
    (evict truncated used).used = trim maxTrackedJobs used := by
  induction used generalizing truncated with
  | nil => rfl
  | cons item used ih =>
    rw [evict, trim, List.length_cons]
    split
    · rename_i hMany
      rw [ih, trim, show used.length + 1 - maxTrackedJobs = used.length - maxTrackedJobs + 1 by omega,
        List.drop_succ_cons]
    · rename_i hFew
      rw [show used.length + 1 - maxTrackedJobs = 0 by omega, List.drop_zero]

theorem mem_evict_truncated (truncated : Finset String) (used : List (String × Nat × Nat)) (job : String) :
    job ∈ (evict truncated used).truncated ↔
      job ∈ truncated ∧ job ∉ (used.take (used.length - maxTrackedJobs)).map Prod.fst := by
  induction used generalizing truncated with
  | nil => simp [evict]
  | cons item used ih =>
    rw [evict, List.length_cons]
    split
    · rename_i hMany
      rw [ih, show used.length + 1 - maxTrackedJobs = used.length - maxTrackedJobs + 1 by omega, List.take_succ_cons,
        Finset.mem_erase, List.map_cons, List.mem_cons, not_or]
      tauto
    · rename_i hFew
      rw [show used.length + 1 - maxTrackedJobs = 0 by omega]
      simp

theorem mem_evict_of_kept {truncated : Finset String} {used : List (String × Nat × Nat)} {job : String}
    (hDistinct : (used.map Prod.fst).Nodup) (hKept : job ∈ (trim maxTrackedJobs used).map Prod.fst) :
    job ∈ (evict truncated used).truncated ↔ job ∈ truncated := by
  rw [mem_evict_truncated]
  refine ⟨And.left, fun hMem => ⟨hMem, fun hDropped => ?_⟩⟩
  rw [← List.take_append_drop (used.length - maxTrackedJobs) used, List.map_append] at hDistinct
  exact List.disjoint_of_nodup_append hDistinct hDropped hKept

/-- Each job has one entry, and a job past a cap has one. -/
structure WellFormed (budget : Budget) : Prop where
  distinct : (budget.used.map Prod.fst).Nodup
  tracked : ∀ job ∈ budget.truncated, job ∈ budget.used.map Prod.fst

theorem admit_open {budget : Budget} {job : String} (caps : Caps) (lines : List String)
    (hOpen : job ∉ budget.truncated) :
    ∃ allowed counts, fit caps (budget.usedBy job).1 (budget.usedBy job).2 lines = (allowed, counts) ∧
      (admitLines caps job lines budget).1.used = trim maxTrackedJobs (touch budget.used job counts) ∧
      (∀ i, i ∈ (admitLines caps job lines budget).1.truncated ↔
        i = job ∧ allowed < lines.length ∨ i ∈ (evict budget.truncated (touch budget.used job counts)).truncated) ∧
      (admitLines caps job lines budget).2 = (allowed, decide (allowed < lines.length)) := by
  obtain ⟨allowed, counts, hFit⟩ : ∃ allowed counts,
      fit caps (budget.usedBy job).1 (budget.usedBy job).2 lines = (allowed, counts) := ⟨_, _, rfl⟩
  have hStill : job ∉ (evict budget.truncated (touch budget.used job counts)).truncated :=
    fun hMem => hOpen ((mem_evict_truncated _ _ _).mp hMem).1
  refine ⟨allowed, counts, hFit, ?_, ?_, ?_⟩
  · rw [admitLines, if_neg hOpen, hFit]
    dsimp only
    split
    · exact evict_used _ _
    · exact evict_used _ _
  · intro i
    rw [admitLines, if_neg hOpen, hFit]
    dsimp only
    by_cases hMore : allowed < lines.length
    · rw [if_pos (by simp [hMore, hStill]), Finset.mem_insert]
      simp [hMore]
    · rw [if_neg (by simp [hMore])]
      simp [hMore]
  · rw [admitLines, if_neg hOpen, hFit]
    simp [hStill]

theorem WellFormed.admitLines {budget : Budget} (h : WellFormed budget) (caps : Caps) (job : String) (lines : List String) :
    WellFormed (admitLines caps job lines budget).1 := by
  by_cases hOpen : job ∈ budget.truncated
  · rw [LiveLineBudget.admitLines, if_pos hOpen]
    exact h
  obtain ⟨allowed, counts, -, hUsed, hTruncated, -⟩ := admit_open caps lines hOpen
  have hDistinct := nodup_touch h.distinct job counts
  constructor
  · rw [hUsed]
    exact nodup_trim hDistinct maxTrackedJobs
  · intro i hMem
    rw [hUsed]
    obtain ⟨rfl, -⟩ | hMem := (hTruncated i).mp hMem
    · exact ((Behind.touched h.distinct i counts).trim (by decide)).mem_keys
    · rw [mem_evict_truncated] at hMem
      have hKey : i ∈ (touch budget.used job counts).map Prod.fst := mem_keys_touch.mpr (.inr (h.tracked i hMem.1))
      rw [← List.take_append_drop ((touch budget.used job counts).length - maxTrackedJobs) (touch budget.used job counts),
        List.map_append, List.mem_append] at hKey
      exact hKey.resolve_left hMem.2

theorem WellFormed.forget {budget : Budget} (h : WellFormed budget) (job : String) :
    WellFormed (forget job budget) := by
  constructor
  · exact nodup_pop h.distinct job
  · intro i hMem
    obtain ⟨hOther, hMem⟩ := Finset.mem_erase.mp hMem
    exact mem_keys_pop.mpr ⟨h.tracked i hMem, hOther⟩

theorem WellFormed.step {budget : Budget} (h : WellFormed budget) (caps : Caps) (call : Call) :
    WellFormed (step caps budget call).1 := by
  cases call with
  | admitLines job lines => exact h.admitLines caps job lines
  | forget job => exact h.forget job

theorem WellFormed.run {budget : Budget} (h : WellFormed budget) (caps : Caps) (calls : List Call) :
    WellFormed (run caps budget calls).1 := by
  induction calls generalizing budget with
  | nil => exact h
  | cons call calls ih => exact ih (h.step caps call)

/-! ## One period -/

theorem run_append (caps : Caps) (budget : Budget) (calls more : List Call) :
    run caps budget (calls ++ more) =
      ((run caps (run caps budget calls).1 more).1,
        (run caps budget calls).2 ++ (run caps (run caps budget calls).1 more).2) := by
  induction calls generalizing budget with
  | nil => rfl
  | cons call calls ih =>
    rw [List.cons_append, run, run]
    simp only [ih, List.cons_append]

section Accounts

variable {caps : Caps} {job : String} {events : List Event} {event : Event}

theorem offered_snoc : offered job (events ++ [event]) = offered job events ++ event.lines job := by
  simp [offered]

theorem admitted_snoc :
    admitted job (events ++ [event]) = admitted job events ++ (event.lines job).take event.allowed := by
  simp [admitted]

theorem lines_of_not_admits (h : event.Admits job = false) : event.lines job = [] := by
  obtain ⟨before, call, allowed, crossed⟩ := event
  cases call with
  | admitLines i lines =>
    rw [Event.Admits, decide_eq_false_iff_not] at h
    exact if_neg h
  | forget i => rfl

theorem offered_of_none (h : events.any (Event.Admits job) = false) : offered job events = [] := by
  rw [offered, List.flatMap_eq_nil_iff]
  intro event hMem
  exact lines_of_not_admits (by simpa using List.any_eq_false.mp h event hMem)

theorem admitted_of_none (h : events.any (Event.Admits job) = false) : admitted job events = [] := by
  rw [admitted, List.flatMap_eq_nil_iff]
  intro event hMem
  rw [lines_of_not_admits (by simpa using List.any_eq_false.mp h event hMem), List.take_nil]

theorem othersSince_snoc (marked : Event → Bool) :
    othersSince job marked (events ++ [event]) =
      if marked event then ∅
      else
        match event.call with
        | .admitLines i _ => if i = job then othersSince job marked events else insert i (othersSince job marked events)
        | .forget _ => othersSince job marked events := by
  rw [othersSince, List.foldl_append]
  rfl

theorem bytes_append (xs ys : List String) : bytes (xs ++ ys) = bytes xs + bytes ys := by
  simp [bytes]

theorem ClosesForGood.nil (caps : Caps) (job : String) : ClosesForGood caps job [] where
  isPrefix := List.prefix_refl []
  lines := Nat.zero_le _
  bytes := Nat.zero_le _
  crossing := rfl
  closed := by simp

theorem ClosesForGood.other (h : ClosesForGood caps job events) (hOther : event.Admits job = false) :
    ClosesForGood caps job (events ++ [event]) := by
  have hAdmitted : admitted job (events ++ [event]) = admitted job events := by
    rw [admitted_snoc, lines_of_not_admits hOther, List.take_nil, List.append_nil]
  have hOffered : offered job (events ++ [event]) = offered job events := by
    rw [offered_snoc, lines_of_not_admits hOther, List.append_nil]
  have hCross : event.Crosses job = false := by
    rw [Event.Crosses, hOther, Bool.false_and]
  constructor
  · rw [hAdmitted, hOffered]
    exact h.isPrefix
  · rw [hAdmitted]
    exact h.lines
  · rw [hAdmitted]
    exact h.bytes
  · rw [List.countP_append, h.crossing, hAdmitted, hOffered]
    simp [hCross]
  · intro earlier first later hSplit hFirst
    obtain ⟨rfl, rfl, rfl⟩ | ⟨rest, rfl, hRest⟩ := split_snoc hSplit
    · rfl
    · rw [admitted_snoc, lines_of_not_admits hOther, h.closed earlier first rest hRest hFirst, List.take_nil]
      rfl

theorem ClosesForGood.refused (h : ClosesForGood caps job events) (hAllowed : event.allowed = 0)
    (hCross : event.crossed = false) (hPast : admitted job events ≠ offered job events) :
    ClosesForGood caps job (events ++ [event]) := by
  have hAdmitted : admitted job (events ++ [event]) = admitted job events := by
    rw [admitted_snoc, hAllowed, List.take_zero, List.append_nil]
  have hShorter : admitted job events <+: offered job events ++ event.lines job :=
    h.isPrefix.trans (List.prefix_append _ _)
  have hStill : admitted job events ≠ offered job events ++ event.lines job := by
    intro hEq
    have hLength := congrArg List.length hEq
    rw [List.length_append] at hLength
    exact hPast (h.isPrefix.eq_of_length (by have := h.isPrefix.length_le; omega))
  constructor
  · rw [hAdmitted, offered_snoc]
    exact hShorter
  · rw [hAdmitted]
    exact h.lines
  · rw [hAdmitted]
    exact h.bytes
  · rw [List.countP_append, h.crossing, hAdmitted, offered_snoc, if_neg hPast, if_neg hStill]
    simp [Event.Crosses, hCross]
  · intro earlier first later hSplit hFirst
    obtain ⟨rfl, rfl, rfl⟩ | ⟨rest, rfl, hRest⟩ := split_snoc hSplit
    · rfl
    · rw [admitted_snoc, hAllowed, h.closed earlier first rest hRest hFirst]
      rfl

theorem ClosesForGood.accepted (h : ClosesForGood caps job events) {before : Budget} {lines : List String} {allowed : Nat}
    (hAll : admitted job events = offered job events) (hAllowed : allowed ≤ lines.length)
    (hLines : (admitted job events).length + allowed ≤ caps.perJob)
    (hBytes : LiveLineBudget.bytes (admitted job events) + LiveLineBudget.bytes (lines.take allowed) ≤ caps.bytesPerJob) :
    ClosesForGood caps job (events ++ [⟨before, .admitLines job lines, allowed, decide (allowed < lines.length)⟩]) := by
  have hOffered : Event.lines job ⟨before, .admitLines job lines, allowed, decide (allowed < lines.length)⟩ = lines :=
    if_pos rfl
  have hNone : events.countP (Event.Crosses job) = 0 := by
    rw [h.crossing, if_pos hAll]
  constructor
  · rw [admitted_snoc, offered_snoc, hAll, hOffered]
    exact (List.prefix_append_right_inj _).mpr (List.take_prefix _ _)
  · rw [admitted_snoc, List.length_append, hOffered, List.length_take_of_le hAllowed]
    exact hLines
  · rw [admitted_snoc, bytes_append, hOffered]
    exact hBytes
  · rw [List.countP_append, hNone, admitted_snoc, offered_snoc, hAll, hOffered, List.countP_singleton]
    by_cases hMore : allowed < lines.length
    · have hCut : lines.take allowed ≠ lines := by
        intro hEq
        have := congrArg List.length hEq
        rw [List.length_take_of_le hAllowed] at this
        omega
      simp [Event.Crosses, Event.Admits, hMore, hCut]
    · have hWhole : lines.take allowed = lines := List.take_of_length_le (by omega)
      simp [Event.Crosses, Event.Admits, hMore, hWhole]
  · intro earlier first later hSplit hFirst
    obtain ⟨rfl, rfl, rfl⟩ | ⟨rest, rfl, hRest⟩ := split_snoc hSplit
    · rfl
    · have hMem : first ∈ events := hRest ▸ List.mem_append_right earlier List.mem_cons_self
      exact absurd hFirst (List.countP_eq_zero.mp hNone first hMem)

end Accounts

/-- What the table says of a job within a period: nothing before its first batch, and its admitted lines for as long as
fewer other jobs than are tracked came after it. -/
structure Standing (caps : Caps) (job : String) (budget : Budget) (events : List Event) : Prop where
  law : ClosesForGood caps job events
  fresh : events.any (Event.Admits job) = false → job ∉ budget.used.map Prod.fst
  kept : events.any (Event.Admits job) →
    (othersSince job (Event.Opens job) events).card < maxTrackedJobs →
      Behind budget.used job ((admitted job events).length, bytes (admitted job events))
        (othersSince job (Event.Opens job) events) ∧
      (job ∈ budget.truncated ↔ admitted job events ≠ offered job events)

namespace Standing

variable {caps : Caps} {job : String} {budget : Budget} {events : List Event}

/-- A call that admits nothing of the job and leaves its entry where it is or moves one other job past it. -/
theorem other (h : Standing caps job budget events) {event : Event} {after : Budget}
    (hOther : event.Admits job = false) (hKeys : ∀ i ∈ after.used.map Prod.fst, i ≠ job ∨ i ∈ budget.used.map Prod.fst)
    (hKept : ∀ counts, (othersSince job (Event.Opens job) (events ++ [event])).card < maxTrackedJobs →
      Behind budget.used job counts (othersSince job (Event.Opens job) events) →
        Behind after.used job counts (othersSince job (Event.Opens job) (events ++ [event])) ∧
          (job ∈ after.truncated ↔ job ∈ budget.truncated))
    (hMore : othersSince job (Event.Opens job) events ⊆ othersSince job (Event.Opens job) (events ++ [event])) :
    Standing caps job after (events ++ [event]) := by
  have hAny : (events ++ [event]).any (Event.Admits job) = events.any (Event.Admits job) := by
    simp [hOther]
  have hAdmitted : admitted job (events ++ [event]) = admitted job events := by
    rw [admitted_snoc, lines_of_not_admits hOther, List.take_nil, List.append_nil]
  have hOffered : offered job (events ++ [event]) = offered job events := by
    rw [offered_snoc, lines_of_not_admits hOther, List.append_nil]
  constructor
  · exact h.law.other hOther
  · intro hNone hMem
    obtain hEq | hMem := hKeys job hMem
    · exact hEq rfl
    · exact h.fresh (hAny ▸ hNone) hMem
  · intro hSome hFew
    obtain ⟨hBehind, hPast⟩ := h.kept (hAny ▸ hSome) (Nat.lt_of_le_of_lt (Finset.card_le_card hMore) hFew)
    obtain ⟨hBehind, hSame⟩ := hKept _ hFew hBehind
    rw [hAdmitted, hOffered]
    exact ⟨hBehind, hSame.trans hPast⟩

theorem forget_other (h : Standing caps job budget events) {i : String} (hOther : i ≠ job) :
    Standing caps job (forget i budget) (events ++ [⟨budget, .forget i, 0, false⟩]) := by
  have hSame : othersSince job (Event.Opens job) (events ++ [⟨budget, .forget i, 0, false⟩]) =
      othersSince job (Event.Opens job) events := othersSince_snoc _
  apply h.other rfl
  · intro k hMem
    exact .inr (mem_keys_pop.mp hMem).1
  · intro counts _ hBehind
    rw [hSame]
    refine ⟨hBehind.pop_other hOther, ?_⟩
    rw [forget, Finset.mem_erase]
    exact ⟨And.right, fun hMem => ⟨hOther.symm, hMem⟩⟩
  · rw [hSame]

theorem admit_other (h : Standing caps job budget events) (hWell : WellFormed budget) {i : String} (hOther : i ≠ job)
    (lines : List String) :
    Standing caps job (step caps budget (.admitLines i lines)).1 (events ++ [(step caps budget (.admitLines i lines)).2]) := by
  have hAdmits : (step caps budget (.admitLines i lines)).2.Admits job = false := decide_eq_false hOther
  have hOthers : othersSince job (Event.Opens job) (events ++ [(step caps budget (.admitLines i lines)).2]) =
      insert i (othersSince job (Event.Opens job) events) := by
    have hNotOpens : Event.Opens job (step caps budget (.admitLines i lines)).2 = false := by
      rw [Event.Opens, hAdmits, Bool.false_and]
    rw [othersSince_snoc, hNotOpens, if_neg Bool.false_ne_true]
    exact if_neg hOther
  have hMore : othersSince job (Event.Opens job) events ⊆
      othersSince job (Event.Opens job) (events ++ [(step caps budget (.admitLines i lines)).2]) := by
    rw [hOthers]
    exact Finset.subset_insert i _
  by_cases hOpen : i ∈ budget.truncated
  · have hAfter : (step caps budget (.admitLines i lines)).1 = budget := by
      rw [step, admitLines, if_pos hOpen]
    rw [hAfter]
    apply h.other hAdmits (fun k hMem => .inr hMem) _ hMore
    intro counts _ hBehind
    exact ⟨hBehind.mono hMore, Iff.rfl⟩
  · obtain ⟨allowed, counts', -, hUsed, hTruncated, -⟩ := admit_open caps lines hOpen
    refine h.other hAdmits ?_ ?_ hMore
    · intro k hMem
      rw [step, hUsed] at hMem
      obtain rfl | hMem := mem_keys_touch.mp (mem_trim hMem)
      · exact .inl hOther
      · exact .inr hMem
    · intro counts hFew hBehind
      rw [hOthers] at hFew ⊢
      have hMoved := (hBehind.touch_other hOther counts').trim hFew
      rw [step, hUsed, hTruncated, mem_evict_of_kept (nodup_touch hWell.distinct i counts') hMoved.mem_keys]
      refine ⟨hMoved, ?_⟩
      constructor
      · rintro (⟨hEq, -⟩ | hMem)
        · exact absurd hEq.symm hOther
        · exact hMem
      · exact .inr

/-- The job's own batch that is not refused outright, while every line of the job was admitted. -/
theorem admit_accepted (h : Standing caps job budget events) (hWell : WellFormed budget) (lines : List String)
    (hOpen : job ∉ budget.truncated) (hAll : admitted job events = offered job events)
    (hUsedBy : budget.usedBy job = ((admitted job events).length, bytes (admitted job events))) :
    Standing caps job (step caps budget (.admitLines job lines)).1 (events ++ [(step caps budget (.admitLines job lines)).2]) := by
  obtain ⟨allowed, counts, hFit, hUsed, hTruncated, hAnswer⟩ := admit_open caps lines hOpen
  have hEvent : (step caps budget (.admitLines job lines)).2 =
      ⟨budget, .admitLines job lines, allowed, decide (allowed < lines.length)⟩ := by
    rw [step]
    simp only [hAnswer]
  obtain ⟨hAllowed, hCountLines, hCountBytes, hUnder, hBytesUnder⟩ :=
    fit_spec caps (admitted job events).length (bytes (admitted job events)) lines
  rw [hUsedBy] at hFit
  rw [hFit] at hAllowed hCountLines hCountBytes hUnder hBytesUnder
  have hLines := hUnder h.law.lines
  have hBytes := hBytesUnder h.law.bytes
  have hLaw : ClosesForGood caps job
      (events ++ [⟨budget, .admitLines job lines, allowed, decide (allowed < lines.length)⟩]) :=
    h.law.accepted hAll hAllowed (hCountLines ▸ hLines) (hCountBytes ▸ hBytes)
  rw [hEvent]
  have hNone : othersSince job (Event.Opens job)
      (events ++ [⟨budget, .admitLines job lines, allowed, decide (allowed < lines.length)⟩]) = ∅ := by
    rw [othersSince_snoc, if_pos]
    simp [Event.Opens, Event.Admits, hOpen]
  have hCounts : counts = ((admitted job events ++ lines.take allowed).length,
      bytes (admitted job events ++ lines.take allowed)) := by
    rw [List.length_append, List.length_take_of_le hAllowed, bytes_append]
    exact Prod.ext hCountLines hCountBytes
  refine ⟨hLaw, fun hNever => ?_, fun _ _ => ?_⟩
  · simp [Event.Admits] at hNever
  · have hOwn : Event.lines job ⟨budget, .admitLines job lines, allowed, decide (allowed < lines.length)⟩ = lines := if_pos rfl
    have hMoved : Behind (trim maxTrackedJobs (touch budget.used job counts)) job counts ∅ :=
      (Behind.touched hWell.distinct job counts).trim (by decide)
    rw [hNone, admitted_snoc, offered_snoc, hOwn, hAll, ← hAll]
    refine ⟨?_, ?_⟩
    · rw [step, hUsed, ← hCounts]
      exact hMoved
    · rw [step, hTruncated, mem_evict_of_kept (nodup_touch hWell.distinct job counts) hMoved.mem_keys]
      simp only [hOpen, or_false, true_and, ne_eq, List.append_cancel_left_eq]
      constructor
      · intro hMore hEq
        have := congrArg List.length hEq
        rw [List.length_take_of_le hAllowed] at this
        omega
      · intro hCut
        by_contra hFull
        exact hCut (List.take_of_length_le (by omega))

theorem admit_own (h : Standing caps job budget events) (hWell : WellFormed budget) (lines : List String)
    (hFew : events.any (Event.Admits job) → (othersSince job (Event.Opens job) events).card < maxTrackedJobs) :
    Standing caps job (step caps budget (.admitLines job lines)).1 (events ++ [(step caps budget (.admitLines job lines)).2]) := by
  cases hAny : events.any (Event.Admits job) with
  | false =>
    have hUntracked := h.fresh hAny
    apply h.admit_accepted hWell lines (fun hMem => hUntracked (hWell.tracked job hMem))
    · rw [admitted_of_none hAny, offered_of_none hAny]
    · have hGet : get budget.used job = none :=
        Option.not_isSome_iff_eq_none.mp fun hSome => hUntracked (get_isSome_iff.mp hSome)
      rw [Budget.usedBy, hGet, admitted_of_none hAny]
      rfl
  | true =>
    obtain ⟨hBehind, hPast⟩ := h.kept hAny (hFew hAny)
    by_cases hOpen : job ∈ budget.truncated
    · have hEvent : step caps budget (.admitLines job lines) = (budget, ⟨budget, .admitLines job lines, 0, false⟩) := by
        rw [step, admitLines, if_pos hOpen]
      rw [hEvent]
      have hSame : othersSince job (Event.Opens job) (events ++ [⟨budget, .admitLines job lines, 0, false⟩]) =
          othersSince job (Event.Opens job) events := by
        rw [othersSince_snoc, if_neg (by simp [Event.Opens, hOpen])]
        exact if_pos rfl
      have hAdmitted : admitted job (events ++ [⟨budget, .admitLines job lines, 0, false⟩]) = admitted job events := by
        rw [admitted_snoc, List.take_zero, List.append_nil]
      have hLaw : ClosesForGood caps job (events ++ [⟨budget, .admitLines job lines, 0, false⟩]) :=
        h.law.refused rfl rfl (hPast.mp hOpen)
      refine ⟨hLaw, fun hNever => ?_, fun _ _ => ?_⟩
      · simp [Event.Admits] at hNever
      · rw [hSame, hAdmitted]
        refine ⟨hBehind, fun _ hEq => ?_, fun _ => hOpen⟩
        have hLength := h.law.isPrefix.length_le
        have hLonger := congrArg List.length hEq
        rw [offered_snoc, List.length_append] at hLonger
        exact hPast.mp hOpen (h.law.isPrefix.eq_of_length (by omega))
    · apply h.admit_accepted hWell lines hOpen
      · exact not_not.mp fun hCut => hOpen (hPast.mpr hCut)
      · rw [Budget.usedBy, hBehind.get]
        rfl

end Standing

theorem Standing.step {caps : Caps} {job : String} {budget : Budget} {events : List Event}
    (h : Standing caps job budget events) (hWell : WellFormed budget) {call : Call} (hLasts : call ≠ .forget job)
    (hFew : (step caps budget call).2.Admits job → events.any (Event.Admits job) →
      (othersSince job (Event.Opens job) events).card < maxTrackedJobs) :
    Standing caps job (step caps budget call).1 (events ++ [(LiveLineBudget.step caps budget call).2]) := by
  cases call with
  | admitLines i lines =>
    by_cases hOwn : i = job
    · subst hOwn
      exact h.admit_own hWell lines (hFew (decide_eq_true rfl))
    · exact h.admit_other hWell hOwn lines
  | forget i =>
    apply h.forget_other
    rintro rfl
    exact hLasts rfl

theorem Standing.run {caps : Caps} {job : String} {budget : Budget} {events : List Event} {period : List Call}
    (h : Standing caps job budget events) (hWell : WellFormed budget) (hLasts : .forget job ∉ period)
    (hFew : FewOthers job (Event.Opens job) (events ++ (run caps budget period).2)) :
    Standing caps job (run caps budget period).1 (events ++ (LiveLineBudget.run caps budget period).2) := by
  induction period generalizing budget events with
  | nil =>
    rw [LiveLineBudget.run, List.append_nil]
    exact h
  | cons call period ih =>
    rw [List.mem_cons, not_or] at hLasts
    rw [LiveLineBudget.run] at hFew ⊢
    have hNext := h.step hWell (Ne.symm hLasts.1) (hFew events _ _ rfl)
    have hRest := ih hNext (hWell.step caps call) hLasts.2
    rw [List.append_assoc] at hRest
    exact hRest hFew

theorem WellFormed.new : WellFormed .new := ⟨List.nodup_nil, fun _ hMem => nomatch hMem⟩

theorem Standing.start {job : String} {calls period : List Call} (hPeriod : Period job calls period) (caps : Caps) :
    Standing caps job (LiveLineBudget.run caps .new calls).1 [] := by
  refine ⟨.nil caps job, fun _ => ?_, fun hSome => nomatch hSome⟩
  obtain rfl | ⟨before, rfl⟩ := hPeriod.starts
  · exact List.not_mem_nil
  · rw [run_append]
    exact fun hMem => (mem_keys_pop.mp hMem).2 rfl

/-- A job whose entry is not pushed out of the table within a period closes for good within it: a batch that finds it
closed does not count as a use. -/
theorem closes_for_good (caps : Caps) {job : String} {calls period : List Call} (hPeriod : Period job calls period)
    (hFew : FewOthers job (Event.Opens job) (run caps (run caps .new calls).1 period).2) :
    ClosesForGood caps job (run caps (run caps .new calls).1 period).2 :=
  ((Standing.start hPeriod caps).run (WellFormed.new.run caps calls) hPeriod.lasts hFew).law

/-! ## Few other jobs -/

section Crowds

variable {job : String} {marked : Event → Bool}

theorem card_othersSince_append (events more : List Event) :
    (othersSince job marked (events ++ more)).card ≤ (othersSince job marked events).card + more.length := by
  induction more using List.reverseRecOn with
  | nil => simp
  | append_singleton more event ih =>
    rw [← List.append_assoc, othersSince_snoc, List.length_append, List.length_singleton, ← Nat.add_assoc]
    split
    · simp
    · split
      · split
        · omega
        · exact (Finset.card_insert_le _ _).trans (by omega)
      · omega

theorem FewOthers.snoc {events : List Event} (h : FewOthers job marked events) {event : Event}
    (hFew : event.Admits job → (othersSince job marked events).card < maxTrackedJobs) :
    FewOthers job marked (events ++ [event]) := by
  intro earlier first later hSplit hAdmits hAny
  obtain ⟨-, rfl, rfl⟩ | ⟨rest, -, hRest⟩ := split_snoc hSplit
  · exact hFew hAdmits
  · exact h earlier first rest hRest hAdmits hAny

theorem FewOthers.append {events more : List Event} (h : FewOthers job marked events)
    (hOther : ∀ event ∈ more, event.Admits job = false) : FewOthers job marked (events ++ more) := by
  induction more using List.reverseRecOn with
  | nil => simpa using h
  | append_singleton more event ih =>
    rw [← List.append_assoc]
    apply (ih fun event hMem => hOther event (List.mem_append_left _ hMem)).snoc
    intro hAdmits
    rw [hOther event (by simp)] at hAdmits
    cases hAdmits

theorem FewOthers.nil : FewOthers job marked [] := by
  simp [FewOthers]

end Crowds

theorem second_line_closes :
    ClosesForGood ⟨1, 64⟩ "run-1" (run ⟨1, 64⟩ (run ⟨1, 64⟩ .new [.forget "run-1"]).1
      [.admitLines "run-1" ["launch"], .admitLines "run-1" ["tap"]]).2 := by
  apply closes_for_good ⟨1, 64⟩ ⟨.inr ⟨[], rfl⟩, by simp⟩
  apply (FewOthers.nil.snoc _).snoc
  · intro _
    exact (card_othersSince_append [] [_]).trans_lt (by decide)
  · intro _
    decide

/-! ## A closed job that is pushed out -/

def crowdJob (n : Nat) : String := String.ofList (List.replicate n 'x')

theorem crowdJob_inj {m n : Nat} (h : crowdJob m = crowdJob n) : m = n := by
  have := congrArg List.length (String.ofList_injective h)
  simpa using this

theorem crowdJob_ne (n : Nat) : crowdJob n ≠ "run-1" := by
  intro h
  have hLast : 'n' ∈ (crowdJob n).toList := by
    rw [h]
    decide
  rw [crowdJob, String.toList_ofList] at hLast
  exact absurd (List.eq_of_mem_replicate hLast) (by decide)

/-- Other jobs that post an empty batch each. -/
def crowd (first count : Nat) : List Call := (List.range' first count).map fun n => .admitLines (crowdJob n) []

def crowdEntries (first count : Nat) : List (String × Nat × Nat) :=
  (List.range' first count).map fun n => (crowdJob n, 0, 0)

theorem mem_crowdEntries {first count n : Nat} (h : crowdJob n ∈ (crowdEntries first count).map Prod.fst) :
    n < first + count := by
  obtain ⟨item, hItem, hKey⟩ := List.mem_map.mp h
  obtain ⟨m, hMem, rfl⟩ := List.mem_map.mp hItem
  rw [← crowdJob_inj hKey]
  have := List.mem_range'_1.mp hMem
  omega

theorem crowdEntries_append (first count more : Nat) :
    crowdEntries first count ++ crowdEntries (first + count) more = crowdEntries first (count + more) := by
  rw [crowdEntries, crowdEntries, ← List.map_append, List.range'_append_1]
  rfl

theorem pop_of_not_mem {d : List (String × Nat × Nat)} {job : String} (h : job ∉ d.map Prod.fst) : pop d job = d := by
  rw [pop, List.filter_eq_self]
  intro item hMem
  simp only [decide_eq_true_eq]
  rintro rfl
  exact h (List.mem_map_of_mem hMem)

theorem admit_first {caps : Caps} {used : List (String × Nat × Nat)} {truncated : Finset String} {job : String}
    (hNew : job ∉ used.map Prod.fst) (hOpen : job ∉ truncated) :
    admitLines caps job [] ⟨used, truncated⟩ = (evict truncated (used ++ [(job, 0, 0)]), 0, false) := by
  have hNone : get used job = none := Option.not_isSome_iff_eq_none.mp fun hSome => hNew (get_isSome_iff.mp hSome)
  have hTouch : touch used job (0, 0) = used ++ [(job, 0, 0)] := by
    rw [touch, pop_of_not_mem hNew]
  rw [admitLines, if_neg hOpen]
  simp [Budget.usedBy, hNone, fit, hTouch]

theorem evict_few {used : List (String × Nat × Nat)} (hFew : used.length ≤ maxTrackedJobs) (truncated : Finset String) :
    evict truncated used = ⟨used, truncated⟩ := by
  cases used with
  | nil => rfl
  | cons item used =>
    rw [evict, if_neg]
    rw [List.length_cons] at hFew
    omega

/-- The jobs of a crowd stand behind the closed one while there is room. -/
theorem run_crowd (caps : Caps) (counts : Nat × Nat) (before count : Nat) (hRoom : before + count < maxTrackedJobs) :
    (run caps ⟨("run-1", counts) :: crowdEntries 0 before, {"run-1"}⟩ (crowd before count)).1 =
      ⟨("run-1", counts) :: crowdEntries 0 (before + count), {"run-1"}⟩ := by
  induction count with
  | zero => rfl
  | succ count ih =>
    have hNew : crowdJob (before + count) ∉ (("run-1", counts) :: crowdEntries 0 (before + count)).map Prod.fst := by
      rw [List.map_cons, List.mem_cons, not_or]
      refine ⟨crowdJob_ne _, fun hMem => ?_⟩
      have := mem_crowdEntries hMem
      omega
    have hOpen : crowdJob (before + count) ∉ ({"run-1"} : Finset String) := by
      rw [Finset.mem_singleton]
      exact crowdJob_ne _
    have hSplit : crowd before (count + 1) = crowd before count ++ [.admitLines (crowdJob (before + count)) []] := by
      rw [crowd, List.range'_concat, List.map_append]
      simp [crowd]
    rw [hSplit, run_append, ih (by omega)]
    simp only [run, step, admit_first hNew hOpen]
    have hLength : (crowdEntries 0 (before + count)).length = before + count := by
      simp [crowdEntries]
    rw [evict_few (by simp only [List.cons_append, List.length_cons, List.length_append, hLength, List.length_nil]; omega),
      List.cons_append]
    congr 2
    have hAppend := crowdEntries_append 0 (before + count) 1
    rw [Nat.zero_add] at hAppend
    exact hAppend

theorem crowd_events (caps : Caps) (budget : Budget) (first count : Nat) :
    (run caps budget (crowd first count)).2.length = count ∧
      ∀ event ∈ (run caps budget (crowd first count)).2, event.Admits "run-1" = false := by
  induction count generalizing first budget with
  | zero => exact ⟨rfl, fun _ hMem => nomatch hMem⟩
  | succ count ih =>
    rw [crowd, List.range'_succ, List.map_cons, run]
    obtain ⟨hLength, hOther⟩ := ih (step caps budget (.admitLines (crowdJob first) [])).1 (first + 1)
    refine ⟨congrArg (· + 1) hLength, fun event hMem => ?_⟩
    obtain rfl | hMem := List.mem_cons.mp hMem
    · exact decide_eq_false (crowdJob_ne first)
    · exact hOther event hMem

theorem crowd_pushes_out (caps : Caps) (counts : Nat × Nat) {before count : Nat}
    (hFull : before + count + 1 = maxTrackedJobs) :
    (run caps ⟨("run-1", counts) :: crowdEntries 0 before, {"run-1"}⟩ (crowd before (count + 1))).1 =
      ⟨crowdEntries 0 (before + count + 1), ∅⟩ := by
  have hSplit : crowd before (count + 1) = crowd before count ++ [.admitLines (crowdJob (before + count)) []] := by
    rw [crowd, List.range'_concat, List.map_append]
    simp [crowd]
  have hNew : crowdJob (before + count) ∉ (("run-1", counts) :: crowdEntries 0 (before + count)).map Prod.fst := by
    rw [List.map_cons, List.mem_cons, not_or]
    refine ⟨crowdJob_ne _, fun hMem => ?_⟩
    have := mem_crowdEntries hMem
    omega
  have hOpen : crowdJob (before + count) ∉ ({"run-1"} : Finset String) := by
    rw [Finset.mem_singleton]
    exact crowdJob_ne _
  rw [hSplit, run_append, run_crowd caps counts before count (by omega)]
  simp only [run, step, admit_first hNew hOpen]
  have hAppend := crowdEntries_append 0 (before + count) 1
  rw [Nat.zero_add] at hAppend
  have hLength : (crowdEntries 0 (before + count) ++ [(crowdJob (before + count), 0, 0)]).length = maxTrackedJobs := by
    simp [crowdEntries, hFull]
  rw [List.cons_append, evict, hLength, if_pos (Nat.lt_succ_self _), evict_few hLength.le, Finset.erase_singleton]
  exact congrArg (Budget.mk · ∅) hAppend

theorem batch_after_pop {used : List (String × Nat × Nat)} (hNone : get used "run-1" = none) :
    (step ⟨1, 64⟩ ⟨used, ∅⟩ (.admitLines "run-1" ["close"])).2 =
      ⟨⟨used, ∅⟩, .admitLines "run-1" ["close"], 1, false⟩ := by
  obtain ⟨allowed, counts, hFit, -, -, hAnswer⟩ :=
    @admit_open ⟨used, ∅⟩ "run-1" ⟨1, 64⟩ ["close"] (Finset.notMem_empty "run-1")
  rw [Budget.usedBy, hNone] at hFit
  cases hFit
  rw [step]
  simp only [hAnswer]
  rfl

theorem crowd_reopens (count : Nat) :
    (step ⟨1, 64⟩ ⟨crowdEntries 0 count, ∅⟩ (.admitLines "run-1" ["close"])).2 =
      ⟨⟨crowdEntries 0 count, ∅⟩, .admitLines "run-1" ["close"], 1, false⟩ := by
  apply batch_after_pop
  rw [← Option.not_isSome_iff_eq_none, get_isSome_iff]
  intro hMem
  obtain ⟨item, hItem, hKey⟩ := List.mem_map.mp hMem
  obtain ⟨n, -, rfl⟩ := List.mem_map.mp hItem
  exact crowdJob_ne n hKey

/-- A job is closed by its first batch, posts once more within each half of a crowd, and is pushed out. -/
def reopening (half : Nat) : List Call :=
  .admitLines "run-1" ["launch", "tap"] :: (crowd 0 half ++ .admitLines "run-1" ["swipe"] :: (crowd half half ++
    [.admitLines "run-1" ["close"]]))

theorem reopening_events {half : Nat} (hHalf : half + half = maxTrackedJobs) : ∃ first second before before',
    (run ⟨1, 64⟩ .new (reopening half)).2 =
      ([⟨.new, .admitLines "run-1" ["launch", "tap"], 1, true⟩] ++ first ++
        [⟨before, .admitLines "run-1" ["swipe"], 0, false⟩]) ++ second ++
        [⟨before', .admitLines "run-1" ["close"], 1, false⟩] ∧
      (first.length = half ∧ ∀ event ∈ first, event.Admits "run-1" = false) ∧
      second.length = half ∧ ∀ event ∈ second, event.Admits "run-1" = false := by
  have hFirst : step ⟨1, 64⟩ .new (.admitLines "run-1" ["launch", "tap"]) =
      (⟨("run-1", 1, 6) :: crowdEntries 0 0, {"run-1"}⟩, ⟨.new, .admitLines "run-1" ["launch", "tap"], 1, true⟩) := by
    rfl
  have hClosed : ∀ used, step ⟨1, 64⟩ ⟨used, {"run-1"}⟩ (.admitLines "run-1" ["swipe"]) =
      (⟨used, {"run-1"}⟩, ⟨⟨used, {"run-1"}⟩, .admitLines "run-1" ["swipe"], 0, false⟩) := by
    intro used
    rw [step, admitLines, if_pos (Finset.mem_singleton_self _)]
  have hPositive : 0 < half := by
    have hTracked : 0 < maxTrackedJobs := by decide
    omega
  obtain ⟨count, rfl⟩ : ∃ count, half = count + 1 := ⟨half - 1, by omega⟩
  have hRoom := run_crowd ⟨1, 64⟩ (1, 6) 0 (count + 1) (by omega)
  have hOut := @crowd_pushes_out ⟨1, 64⟩ (1, 6) (count + 1) count hHalf
  rw [Nat.zero_add] at hRoom
  refine ⟨(run ⟨1, 64⟩ ⟨("run-1", 1, 6) :: crowdEntries 0 0, {"run-1"}⟩ (crowd 0 (count + 1))).2,
    (run ⟨1, 64⟩ ⟨("run-1", 1, 6) :: crowdEntries 0 (count + 1), {"run-1"}⟩ (crowd (count + 1) (count + 1))).2,
    ⟨("run-1", 1, 6) :: crowdEntries 0 (count + 1), {"run-1"}⟩, ⟨crowdEntries 0 (count + 1 + count + 1), ∅⟩, ?_,
    crowd_events _ _ _ _, crowd_events _ _ _ _⟩
  rw [reopening, run, hFirst]
  simp only [run_append, hRoom, run, hClosed, hOut, crowd_reopens, List.append_assoc, List.cons_append, List.nil_append]

/-- Fewer other jobs than are tracked come between any two batches of the job, and it opens again. -/
theorem closed_job_reopens : ¬∀ (caps : Caps) (job : String) (calls period : List Call), Period job calls period →
    FewOthers job (Event.Admits job) (run caps (run caps .new calls).1 period).2 →
      ClosesForGood caps job (run caps (run caps .new calls).1 period).2 := by
  intro h
  obtain ⟨half, hHalf⟩ : ∃ half, half + half = maxTrackedJobs := ⟨2048, rfl⟩
  have hPeriod : Period "run-1" [] (reopening half) := by
    refine ⟨.inl rfl, ?_⟩
    simp [reopening, crowd]
  obtain ⟨first, second, before, before', hEvents, ⟨hFirst, hFirstOther⟩, hSecond, hSecondOther⟩ :=
    reopening_events hHalf
  have hPositive : 0 < maxTrackedJobs := by decide
  have hLaw := h ⟨1, 64⟩ "run-1" [] (reopening half) hPeriod
  rw [run, hEvents] at hLaw
  have hMark : ∀ (events : List Event) (event : Event), event.Admits "run-1" →
      (othersSince "run-1" (Event.Admits "run-1") (events ++ [event])).card = 0 := by
    intro events event hAdmits
    rw [othersSince_snoc, if_pos hAdmits, Finset.card_empty]
  have hClosed := (hLaw ?_).closed [] _ _ rfl rfl
  · simp [admitted, Event.lines] at hClosed
  · refine (FewOthers.append (FewOthers.snoc (FewOthers.append (FewOthers.nil.snoc ?_) hFirstOther) ?_) hSecondOther).snoc ?_
    · intro _
      decide
    · intro _
      have hCard := @card_othersSince_append "run-1" (Event.Admits "run-1")
        [⟨.new, .admitLines "run-1" ["launch", "tap"], 1, true⟩] first
      have hZero := hMark [] ⟨.new, .admitLines "run-1" ["launch", "tap"], 1, true⟩ rfl
      rw [List.nil_append] at hZero
      rw [hZero, hFirst] at hCard
      exact hCard.trans_lt (by omega)
    · intro _
      refine (card_othersSince_append _ second).trans_lt ?_
      rw [hMark _ ⟨before, .admitLines "run-1" ["swipe"], 0, false⟩ rfl, hSecond]
      omega

end Bajutsu.Serve.LiveLineBudget
