import Bajutsu.Lib.Interleaving
import Bajutsu.Lib.PyText

/-!
# The job registry

A new job is counted against the running ones and inserted under one lock. That a job ended elsewhere is read from the
jobs table outside the lock, and its slot is freed afterwards, one job at a time, while other calls go on.
-/

namespace Bajutsu.Serve.JobRegistry

open Interleaving PyText

inductive Status where
  | running | done
  deriving DecidableEq

structure Job where
  id : String
  actor : Option String
  org : String
  status : Status := .running
  released : Bool := false
  deriving DecidableEq

/-- What a caller fills in of the job it registers. -/
structure Request where
  actor : Option String
  org : String
  deriving DecidableEq

/-- A cap of zero or less is none. `probes` is whether there is a `finished_ids`. -/
structure Settings where
  maxConcurrent : Int
  maxConcurrentPerUser : Int
  maxConcurrentPerOrg : Int
  probes : Bool

/-- The jobs are in the order they were registered in. -/
structure Registry where
  seq : Nat
  jobs : List Job

namespace Registry

variable (registry : Registry)

def holdsSlot (job : Job) : Bool := job.status = .running && !job.released

/-- `_running` -/
def running : List Job := registry.jobs.filter holdsSlot

/-- A write to the job of an id, where there is one. -/
def mark (id : String) (assign : Job → Job) : Registry :=
  { registry with jobs := registry.jobs.map fun job => if job.id = id then assign job else job }

def idOf (seq : Nat) : String := String.ofList (decimal seq)

/-- `_register`; the dict replaces the job of an id it has. -/
def register (request : Request) : Registry × String :=
  let seq := registry.seq + 1
  let job : Job := { id := idOf seq, actor := request.actor, org := request.org }
  if registry.jobs.any fun other => other.id = job.id then
    ({ (registry.mark job.id fun _ => job) with seq }, job.id)
  else ({ seq, jobs := registry.jobs ++ [job] }, job.id)

end Registry

open Registry

/-- A cap that as many of the jobs fill. -/
def atCap (cap : Int) (counts : Job → Bool) (jobs : List Job) : Bool := 0 < cap && cap ≤ jobs.countP counts

def sameActor (actor : Option String) (job : Job) : Bool := job.actor = actor

def sameOrg (org : String) (job : Job) : Bool := job.org = org

/-- The checks of `try_register`. -/
def refuses (settings : Settings) (request : Request) (jobs : List Job) : Bool :=
  atCap settings.maxConcurrent (fun _ => true) jobs ||
    request.actor.any (· ≠ "") && atCap settings.maxConcurrentPerUser (sameActor request.actor) jobs ||
    atCap settings.maxConcurrentPerOrg (sameOrg request.org) jobs

inductive Statement where
  | seedSeq (floor : Nat)
  | live
  | probe (ids : List String)
  | release (id : String)
  | count
  | tryRegister (request : Request)
  | finish (id : String)

def Reply : Statement → Type
  | .live => List String
  | .probe _ => List String
  | .count => Nat
  | .tryRegister _ => Option String
  | _ => Unit

variable (settings : Settings)

/-- The input of a probe is the jobs table's finished jobs, in any order. -/
def exec : (s : Statement) → List String → Registry → Registry × Reply s
  | .seedSeq floor, _, registry => ({ registry with seq := max registry.seq floor }, ())
  | .live, _, registry => (registry, registry.running.map Job.id)
  | .probe ids, finished, registry => (registry, finished.filter fun id => id ∈ ids)
  | .release id, _, registry => (registry.mark id fun job => { job with released := true }, ())
  | .count, _, registry => (registry, registry.running.length)
  | .tryRegister request, _, registry =>
    if refuses settings request registry.running then (registry, none)
    else ((registry.register request).1, some (registry.register request).2)
  | .finish id, _, registry => (registry.mark id fun job => { job with status := .done }, ())

/-- The calls of any number of threads. `finish` is the end of a job on this process, which writes to the job only. -/
inductive Call where
  | seedSeq (floor : Nat)
  | activeJobs
  | tryRegister (request : Request)
  | finish (id : String)
  deriving DecidableEq

inductive Result where
  | nothing
  | number (count : Nat)
  | registered (id : Option String)
  deriving DecidableEq

/-- Where a call stands; `reported` is what its probe has answered, `left` what is still to be released of it. -/
inductive Place where
  | starting (call : Call)
  | probing (call : Call) (live : List String)
  | releasing (call : Call) (reported left : List String)
  | returned (reported : List String) (result : Result)
  deriving DecidableEq

def Call.counts : Call → Bool
  | .activeJobs => true
  | .tryRegister _ => true
  | _ => false

def start (call : Call) : Place :=
  if call.counts && settings.probes then .starting call else .releasing call [] []

/-- What a call does once it has released what finished. -/
def lastStatement (reported : List String) : Call → (s : Statement) × (Reply s → Place)
  | .seedSeq floor => ⟨.seedSeq floor, fun _ => .returned reported .nothing⟩
  | .activeJobs => ⟨.count, fun count : Nat => .returned reported (.number count)⟩
  | .tryRegister request => ⟨.tryRegister request, fun id : Option String => .returned reported (.registered id)⟩
  | .finish id => ⟨.finish id, fun _ => .returned reported .nothing⟩

def next : Place → Option ((s : Statement) × (Reply s → Place))
  | .starting call =>
    some ⟨.live, fun live : List String => if live = [] then .releasing call [] [] else .probing call live⟩
  | .probing call live => some ⟨.probe live, fun reported : List String => .releasing call reported reported⟩
  | .releasing call reported (id :: left) => some ⟨.release id, fun _ => .releasing call reported left⟩
  | .releasing call reported [] => some (lastStatement reported call)
  | .returned .. => none

def registry : Machine Registry Statement Reply (List String) Call Place where
  exec := exec settings
  start := start settings
  next := next

abbrev System := Config Registry Statement Reply (List String) Call Place

/-! ## What a statement does -/

variable {settings}

theorem idOf_injective {m n : Nat} (h : idOf m = idOf n) : m = n := by
  have hDecimal : decimal m = decimal n := by
    simpa [idOf] using congrArg String.toList h
  rw [← natOf_decimal m, hDecimal, natOf_decimal]

/-- Every job's id is a number that was handed out, and no other job has it. -/
structure Numbered (reg : Registry) : Prop where
  handedOut : ∀ job ∈ reg.jobs, ∃ n, 0 < n ∧ n ≤ reg.seq ∧ job.id = idOf n
  nodup : (reg.jobs.map Job.id).Nodup

theorem Numbered.register {reg : Registry} (h : Numbered reg) (request : Request) :
    reg.register request =
      (⟨reg.seq + 1, reg.jobs ++ [{ id := idOf (reg.seq + 1), actor := request.actor, org := request.org }]⟩,
        idOf (reg.seq + 1)) := by
  rw [Registry.register]
  refine if_neg ?_
  rw [List.any_eq_true]
  rintro ⟨job, hMem, hId⟩
  obtain ⟨n, -, hLe, hJob⟩ := h.handedOut job hMem
  have hNew := idOf_injective (hJob.symm.trans (of_decide_eq_true hId))
  omega

/-- A write to jobs that gives no slot. -/
structure Frees (assign : Job → Job) : Prop where
  id : ∀ job, (assign job).id = job.id
  actor : ∀ job, (assign job).actor = job.actor
  org : ∀ job, (assign job).org = job.org
  slot : ∀ job, holdsSlot (assign job) = true → holdsSlot job = true

theorem frees_ite {assign : Job → Job} (h : Frees assign) (id : String) :
    Frees fun job => if job.id = id then assign job else job where
  id job := by split <;> simp [h.id]
  actor job := by split <;> simp [h.actor]
  org job := by split <;> simp [h.org]
  slot job := by
    split
    · exact h.slot job
    · exact fun hSlot => hSlot

/-- A statement frees slots, or it registers a job under a new number. -/
theorem exec_cases (settings : Settings) (reg : Registry) (s : Statement) (finished : List String) :
    (∃ seq assign, reg.seq ≤ seq ∧ Frees assign ∧ (exec settings s finished reg).1 = ⟨seq, reg.jobs.map assign⟩) ∨
      ∃ request, refuses settings request reg.running = false ∧
        (exec settings s finished reg).1 = (reg.register request).1 := by
  have hSame : Frees fun job => job := ⟨fun _ => rfl, fun _ => rfl, fun _ => rfl, fun _ hSlot => hSlot⟩
  have hId : reg = ⟨reg.seq, reg.jobs.map fun job => job⟩ := by simp
  cases s with
  | seedSeq floor => exact .inl ⟨max reg.seq floor, _, le_max_left _ _, hSame, by simp [exec]⟩
  | live => exact .inl ⟨_, _, le_refl _, hSame, hId⟩
  | probe ids => exact .inl ⟨_, _, le_refl _, hSame, hId⟩
  | count => exact .inl ⟨_, _, le_refl _, hSame, hId⟩
  | release id =>
    have hRelease : Frees fun job => { job with released := true } :=
      ⟨fun _ => rfl, fun _ => rfl, fun _ => rfl, fun job hSlot => by simp [holdsSlot] at hSlot⟩
    exact .inl ⟨_, _, le_refl _, frees_ite hRelease id, rfl⟩
  | finish id =>
    have hFinish : Frees fun job => { job with status := .done } :=
      ⟨fun _ => rfl, fun _ => rfl, fun _ => rfl, fun job hSlot => by simp [holdsSlot] at hSlot⟩
    exact .inl ⟨_, _, le_refl _, frees_ite hFinish id, rfl⟩
  | tryRegister request =>
    cases hRefuses : refuses settings request reg.running with
    | true => exact .inl ⟨_, _, le_refl _, hSame, by simp [exec, hRefuses]⟩
    | false => exact .inr ⟨request, hRefuses, by simp [exec, hRefuses]⟩

theorem Numbered.exec {reg : Registry} (h : Numbered reg) (s : Statement) (finished : List String) :
    Numbered (exec settings s finished reg).1 := by
  rcases exec_cases settings reg s finished with ⟨seq, assign, hLe, hFrees, hExec⟩ | ⟨request, -, hExec⟩
  · rw [hExec]
    constructor
    · intro job hMem
      obtain ⟨old, hOld, rfl⟩ := List.mem_map.mp hMem
      obtain ⟨n, hPos, hn, hId⟩ := h.handedOut old hOld
      exact ⟨n, hPos, hn.trans hLe, (hFrees.id old).trans hId⟩
    · have hIds : (reg.jobs.map assign).map Job.id = reg.jobs.map Job.id := by
        simp [Function.comp_def, hFrees.id]
      rw [hIds]
      exact h.nodup
  · rw [hExec, h.register]
    constructor
    · intro job hMem
      rcases List.mem_append.mp hMem with hOld | hNew
      · obtain ⟨n, hPos, hn, hId⟩ := h.handedOut job hOld
        exact ⟨n, hPos, by simp only; omega, hId⟩
      · rw [List.mem_singleton.mp hNew]
        exact ⟨_, Nat.succ_pos _, le_refl _, rfl⟩
    · rw [List.map_append]
      refine List.Nodup.append h.nodup (List.nodup_singleton _) ?_
      rw [List.map_singleton, List.disjoint_singleton]
      intro hMem
      obtain ⟨job, hJob, hId⟩ := List.mem_map.mp hMem
      obtain ⟨n, -, hn, hOld⟩ := h.handedOut job hJob
      have hNew := idOf_injective (hOld.symm.trans hId)
      omega

/-! ## The caps -/

def Within (cap : Int) (counts : Job → Bool) (reg : Registry) : Prop :=
  0 < cap → (reg.running.countP counts : Int) ≤ cap

/-- No cap is overrun, for any user or organisation. -/
structure WithinCaps (settings : Settings) (reg : Registry) : Prop where
  total : Within settings.maxConcurrent (fun _ => true) reg
  user : ∀ actor, actor ≠ "" → Within settings.maxConcurrentPerUser (sameActor (some actor)) reg
  org : ∀ org, Within settings.maxConcurrentPerOrg (sameOrg org) reg

theorem Within.frees {cap : Int} {counts : Job → Bool} {reg : Registry} (h : Within cap counts reg) {seq : Nat}
    {assign : Job → Job} (hFrees : Frees assign) (hCounts : ∀ job, counts (assign job) = counts job) :
    Within cap counts ⟨seq, reg.jobs.map assign⟩ := by
  intro hCap
  have hMono : (Registry.running ⟨seq, reg.jobs.map assign⟩).countP counts ≤ reg.running.countP counts := by
    rw [running, running, List.countP_filter, List.countP_filter, List.countP_map]
    refine List.countP_mono_left fun job _ hHolds => ?_
    simp only [Function.comp_apply, Bool.and_eq_true, hCounts] at hHolds ⊢
    exact ⟨hHolds.1, hFrees.slot job hHolds.2⟩
  have hOld := h hCap
  omega

theorem Within.append {cap : Int} {counts : Job → Bool} {reg : Registry} (h : Within cap counts reg) {seq : Nat}
    {job : Job} (hCap : counts job = true → atCap cap counts reg.running = false) :
    Within cap counts ⟨seq, reg.jobs ++ [job]⟩ := by
  intro hPos
  have hOld := h hPos
  have hCount : (Registry.running ⟨seq, reg.jobs ++ [job]⟩).countP counts ≤
      reg.running.countP counts + if counts job then 1 else 0 := by
    rw [running, running, List.filter_append, List.countP_append, List.filter_singleton]
    cases holdsSlot job <;> simp
  cases hJob : counts job with
  | false =>
    rw [hJob] at hCount
    simp only [Bool.false_eq_true, if_false] at hCount
    omega
  | true =>
    rw [hJob, if_pos rfl] at hCount
    have hFull := hCap hJob
    simp only [atCap, Bool.and_eq_false_iff, decide_eq_false_iff_not] at hFull
    omega

theorem WithinCaps.exec {reg : Registry} (hNumbered : Numbered reg) (h : WithinCaps settings reg) (s : Statement)
    (finished : List String) : WithinCaps settings (exec settings s finished reg).1 := by
  rcases exec_cases settings reg s finished with
    ⟨seq, assign, -, hFrees, hExec⟩ | ⟨request, hRefuses, hExec⟩
  · rw [hExec]
    exact ⟨h.total.frees hFrees fun _ => rfl,
      fun actor hActor => (h.user actor hActor).frees hFrees fun job => by simp [sameActor, hFrees.actor],
      fun org => (h.org org).frees hFrees fun job => by simp [sameOrg, hFrees.org]⟩
  · rw [hExec, hNumbered.register]
    simp only [refuses, Bool.or_eq_false_iff, Bool.and_eq_false_iff] at hRefuses
    obtain ⟨⟨hTotal, hUser⟩, hOrg⟩ := hRefuses
    refine ⟨h.total.append fun _ => hTotal, fun actor hActor => (h.user actor hActor).append ?_,
      fun org => (h.org org).append ?_⟩
    · intro hSame
      have hRequest : request.actor = some actor := of_decide_eq_true hSame
      simpa [hRequest, hActor] using hUser
    · intro hSame
      have hRequest : request.org = org := of_decide_eq_true hSame
      exact hRequest ▸ hOrg

/-! ## Freed slots -/

def Known (reg : Registry) (id : String) : Prop := ∃ n, n ≤ reg.seq ∧ id = idOf n

/-- The job of the id has given its slot up, and no job will have the id again. -/
def Over (reg : Registry) (id : String) : Prop := Known reg id ∧ ∀ job ∈ reg.running, job.id ≠ id

theorem Known.exec {reg : Registry} (hNumbered : Numbered reg) {id : String} (h : Known reg id) (s : Statement)
    (finished : List String) : Known (exec settings s finished reg).1 id := by
  obtain ⟨n, hn, rfl⟩ := h
  refine ⟨n, ?_, rfl⟩
  rcases exec_cases settings reg s finished with ⟨seq, assign, hLe, -, hExec⟩ | ⟨request, -, hExec⟩
  · rw [hExec]
    exact hn.trans hLe
  · rw [hExec, hNumbered.register]
    exact hn.trans (Nat.le_succ _)

theorem Over.exec {reg : Registry} (hNumbered : Numbered reg) {id : String} (h : Over reg id) (s : Statement)
    (finished : List String) : Over (exec settings s finished reg).1 id := by
  refine ⟨h.1.exec hNumbered s finished, ?_⟩
  intro job hMem
  rcases exec_cases settings reg s finished with ⟨seq, assign, -, hFrees, hExec⟩ | ⟨request, -, hExec⟩
  · rw [hExec] at hMem
    obtain ⟨hJob, hSlot⟩ := List.mem_filter.mp hMem
    obtain ⟨old, hOld, rfl⟩ := List.mem_map.mp hJob
    rw [hFrees.id]
    exact h.2 old (List.mem_filter.mpr ⟨hOld, hFrees.slot old hSlot⟩)
  · rw [hExec, hNumbered.register] at hMem
    obtain ⟨hJob, hSlot⟩ := List.mem_filter.mp hMem
    rcases List.mem_append.mp hJob with hOld | hNew
    · exact h.2 job (List.mem_filter.mpr ⟨hOld, hSlot⟩)
    · rw [List.mem_singleton.mp hNew]
      rintro rfl
      obtain ⟨n, hn, hId⟩ := h.1
      have hSame := idOf_injective hId
      omega

theorem over_release {reg : Registry} {id : String} (h : Known reg id) (finished : List String) :
    Over (exec settings (.release id) finished reg).1 id := by
  refine ⟨h, ?_⟩
  intro job hMem hId
  obtain ⟨hJob, hSlot⟩ := List.mem_filter.mp hMem
  obtain ⟨old, -, rfl⟩ := List.mem_map.mp hJob
  split at hId
  · rename_i hOld
    simp [holdsSlot, hOld] at hSlot
  · rename_i hOther
    exact hOther hId

/-- What a call knows: what it has been told of was registered, and what it is past has given its slot up. -/
def Told (reg : Registry) : Place → Prop
  | .starting _ => True
  | .probing _ live => ∀ id ∈ live, Known reg id
  | .releasing _ reported left => ∀ id ∈ reported, Known reg id ∧ (id ∈ left ∨ Over reg id)
  | .returned reported _ => ∀ id ∈ reported, Over reg id

theorem Told.exec {reg : Registry} (hNumbered : Numbered reg) {place : Place} (h : Told reg place) (s : Statement)
    (finished : List String) : Told (JobRegistry.exec settings s finished reg).1 place := by
  cases place with
  | starting call => exact trivial
  | probing call live => exact fun id hMem => (h id hMem).exec hNumbered s finished
  | releasing call reported left =>
    intro id hMem
    obtain ⟨hKnown, hLeft⟩ := h id hMem
    exact ⟨hKnown.exec hNumbered s finished, hLeft.imp (fun hLeft => hLeft) fun hOver => hOver.exec hNumbered s finished⟩
  | returned reported result => exact fun id hMem => (h id hMem).exec hNumbered s finished

theorem Told.next {reg : Registry} (hNumbered : Numbered reg) {place : Place} (h : Told reg place) {s : Statement}
    {rest : Reply s → Place} (hNext : next place = some ⟨s, rest⟩) (finished : List String) :
    Told (JobRegistry.exec settings s finished reg).1 (rest (JobRegistry.exec settings s finished reg).2) := by
  cases place with
  | returned reported result => cases hNext
  | starting call =>
    cases hNext
    change Told reg (if reg.running.map Job.id = [] then .releasing call [] [] else .probing call _)
    split
    · rintro id ⟨⟩
    · intro id hMem
      obtain ⟨job, hJob, rfl⟩ := List.mem_map.mp hMem
      obtain ⟨n, -, hn, hId⟩ := hNumbered.handedOut job (List.mem_of_mem_filter hJob)
      exact ⟨n, hn, hId⟩
  | probing call live =>
    cases hNext
    intro id hMem
    have hLive : id ∈ live := of_decide_eq_true (List.mem_filter.mp hMem).2
    exact ⟨h id hLive, .inl hMem⟩
  | releasing call reported left =>
    cases left with
    | cons first left =>
      cases hNext
      intro id hMem
      obtain ⟨hKnown, hLeft⟩ := h id hMem
      refine ⟨hKnown.exec hNumbered _ finished, ?_⟩
      rcases hLeft with hLeft | hOver
      · rcases List.mem_cons.mp hLeft with rfl | hLeft
        · exact .inr (over_release hKnown finished)
        · exact .inl hLeft
      · exact .inr (hOver.exec hNumbered _ finished)
    | nil =>
      have hOver : ∀ id ∈ reported, Over (JobRegistry.exec settings s finished reg).1 id := by
        intro id hMem
        rcases (h id hMem).2 with hLeft | hOver
        · cases hLeft
        · exact hOver.exec hNumbered s finished
      cases call <;> cases hNext <;> exact hOver

/-! ## Any calls, in any order of their statements -/

def empty : Registry := ⟨0, []⟩

structure Sound (settings : Settings) (st : System) : Prop where
  numbered : Numbered st.shared
  caps : WithinCaps settings st.shared
  told : ∀ call place, (call, place) ∈ st.threads → Told st.shared place

theorem sound_of_reaches {st : System} (h : (registry settings).Reaches (.init empty) st) : Sound settings st := by
  refine h.keeps (P := Sound settings) ?_ ⟨⟨by rintro job ⟨⟩, List.nodup_nil⟩,
    ⟨fun hCap => hCap.le, fun _ _ hCap => hCap.le, fun _ hCap => hCap.le⟩, by rintro call place ⟨⟩⟩
  intro st fin label _ hSound hStep
  rcases Machine.step_event hStep with ⟨call, -, rfl⟩ | ⟨n, finished, call, place, s, rest, -, hThread, hNext, rfl⟩
  · refine ⟨hSound.numbered, hSound.caps, fun call' place hMem => ?_⟩
    rcases List.mem_append.mp hMem with hOld | hNew
    · exact hSound.told call' place hOld
    · obtain ⟨rfl, rfl⟩ := Prod.mk.inj (List.mem_singleton.mp hNew)
      change Told st.shared (start settings call')
      rw [start]
      split
      · exact trivial
      · rintro id ⟨⟩
  · refine ⟨hSound.numbered.exec s finished, hSound.caps.exec hSound.numbered s finished, fun call' place' hMem => ?_⟩
    rcases List.mem_or_eq_of_mem_set hMem with hOld | hNew
    · exact (hSound.told call' place' hOld).exec hSound.numbered s finished
    · obtain ⟨rfl, rfl⟩ := Prod.mk.inj hNew
      exact (hSound.told _ _ (List.mem_of_getElem? hThread)).next hSound.numbered hNext finished

theorem slots_within_caps (settings : Settings) {st : System} (h : (registry settings).Reaches (.init empty) st) :
    (st.shared.jobs.map Job.id).Nodup ∧
    WithinCaps settings st.shared ∧
    (∀ call reported result, (call, .returned reported result) ∈ st.threads →
      ∀ job ∈ st.shared.running, job.id ∉ reported) ∧
    ∀ n call request reported, st.threads[n]? = some (call, .releasing (.tryRegister request) reported []) →
      ∀ finished fin, (registry settings).step st (.run n finished) = some fin →
        fin.threads[n]? = some (call, .returned reported (.registered none)) →
        refuses settings request (st.shared.running.filter fun job => job.id ∉ reported) = true := by
  have hSound := sound_of_reaches h
  refine ⟨hSound.numbered.nodup, hSound.caps, ?_, ?_⟩
  · intro call reported result hMem job hJob hReported
    exact (hSound.told call _ hMem job.id hReported).2 job hJob rfl
  · intro n call request reported hThread finished fin hStep hRefused
    have hOthers : (st.shared.running.filter fun job => job.id ∉ reported) = st.shared.running := by
      rw [List.filter_eq_self]
      intro job hJob
      refine decide_eq_true fun hReported => ?_
      rcases (hSound.told call _ (List.mem_of_getElem? hThread) job.id hReported).2 with hLeft | hOver
      · cases hLeft
      · exact hOver.2 job hJob rfl
    rw [hOthers]
    by_contra hAdmits
    obtain ⟨e, place, s, rest, hLabel, hOld, hNext, hPlace⟩ := (Machine.step_thread hStep hRefused).resolve_left (by
      rw [hThread]
      simp) |>.resolve_left (by simp)
    obtain rfl := (Prod.mk.inj (Option.some.inj (hThread.symm.trans hOld))).2
    cases hNext
    simp [registry, exec, Bool.eq_false_iff.mpr hAdmits] at hPlace

def oneSlot : Settings := ⟨1, 0, 0, true⟩

def request : Request := ⟨none, "default"⟩

/-- The second call frees the slot of the first one's job. The third is about to be refused, for the second one's. -/
def threeCalls : Option System :=
  (registry oneSlot).run (.init empty)
    [.call (.tryRegister request), .run 0 [], .run 0 [],
      .call (.tryRegister request), .run 1 [], .run 1 ["1"], .run 1 [], .run 1 [],
      .call (.tryRegister request), .run 2 [], .run 2 ["1"]]

theorem slots_within_caps_three :
    ∃ st, threeCalls = some st ∧ (st.shared.jobs.map Job.id).Nodup ∧ WithinCaps oneSlot st.shared ∧
      (∀ job ∈ st.shared.running, job.id ∉ ["1"]) ∧
      refuses oneSlot request (st.shared.running.filter fun job => job.id ∉ []) = true := by
  have hRun : (threeCalls.bind fun st => ((registry oneSlot).step st (.run 2 [])).map fun fin =>
      (st.threads[1]?, st.threads[2]?, fin.threads[2]?)) =
        some (some (.tryRegister request, .returned ["1"] (.registered (some "2"))),
          some (.tryRegister request, .releasing (.tryRegister request) [] []),
          some (.tryRegister request, .returned [] (.registered none))) := by decide +kernel
  obtain ⟨st, hThree, hStep⟩ := Option.bind_eq_some_iff.mp hRun
  obtain ⟨fin, hStep, hThreads⟩ := Option.map_eq_some_iff.mp hStep
  obtain ⟨hSecond, hThreads⟩ := Prod.mk.inj hThreads
  obtain ⟨hThird, hRefused⟩ := Prod.mk.inj hThreads
  obtain ⟨hNodup, hCaps, hFreed, hFull⟩ := slots_within_caps oneSlot (.of_run hThree)
  exact ⟨st, hThree, hNodup, hCaps, hFreed _ _ _ (List.mem_of_getElem? hSecond),
    hFull 2 _ request [] hThird [] fin hStep hRefused⟩

end Bajutsu.Serve.JobRegistry
