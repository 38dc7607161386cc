import Mathlib.Data.List.Basic
import Mathlib.Data.List.Induction
import Mathlib.Tactic.Common

/-!
# The run id of a job

Serve reads the id of a job's run off the lines that the job's child prints. The reporter ends a run with the verdict and
the path of the manifest; the other lines say whatever a scenario or an app makes them say.
-/

namespace Bajutsu.Serve.JobRunId

abbrev Text := List Char

/-! ## `_RUN_ID_RE` -/

def isIdChar (c : Char) : Bool := c.isAlphanum || c = '.' || c = '_' || c = '-'

/-- `runs/([0-9A-Za-z._-]+)/manifest\.json` at the front of a text. An id holds no slash, so that it is all there is in
front of the next one. -/
def idAtFront (text : Text) : Option Text :=
  let rest := text.drop "runs/".length
  let runId := rest.takeWhile isIdChar
  if "runs/".toList.isPrefixOf text && !runId.isEmpty && "/manifest.json".toList.isPrefixOf (rest.dropWhile isIdChar) then
    some runId
  else none

/-- The leftmost match. -/
def search : Text → Option Text
  | [] => none
  | c :: text => (idAtFront (c :: text)).or (search text)

section

variable {runId front text : Text}

theorem idAtFront_path (hNe : runId ≠ []) (hChars : ∀ c ∈ runId, isIdChar c = true) :
    idAtFront ("runs/".toList ++ (runId ++ ("/manifest.json".toList ++ text))) = some runId := by
  have hSlash : "/manifest.json".toList ++ text = '/' :: ("manifest.json".toList ++ text) := by simp
  have hRest : ("runs/".toList ++ (runId ++ ("/manifest.json".toList ++ text))).drop "runs/".length =
      runId ++ ("/manifest.json".toList ++ text) := List.drop_left
  have hTake : (runId ++ ("/manifest.json".toList ++ text)).takeWhile isIdChar = runId := by
    rw [hSlash, List.takeWhile_append_of_pos hChars, List.takeWhile_cons_of_neg (by decide), List.append_nil]
  have hDrop : (runId ++ ("/manifest.json".toList ++ text)).dropWhile isIdChar = "/manifest.json".toList ++ text := by
    rw [List.dropWhile_append_of_pos hChars, hSlash, List.dropWhile_cons_of_neg (by decide)]
  unfold idAtFront
  simp only [hRest, hTake, hDrop, List.isPrefixOf_iff_prefix.mpr (List.prefix_append _ _), Bool.true_and, Bool.and_true]
  rw [if_pos (by simpa using hNe)]

theorem search_skip (h : 'r' ∉ front) : search (front ++ text) = search text := by
  induction front with
  | nil => rfl
  | cons c front ih =>
    rw [List.mem_cons, not_or] at h
    have hNone : idAtFront (c :: (front ++ text)) = none := by
      simp [idAtFront, List.isPrefixOf, h.1]
    rw [List.cons_append, search, hNone, Option.none_or, ih h.2]

end

/-! ## The lines of a job -/

inductive JobKind where
  | run | runSet | record | crawl | triage
  deriving DecidableEq

inductive Status where
  | running | done
  deriving DecidableEq

structure Job where
  kind : Option JobKind
  org : Text
  actor : Option Text
  label : Option Text
  lines : List Text := []
  runId : Option Text := none
  awaitingHuman : Bool := false
  cancelled : Bool := false
  exitCode : Option Int := none
  status : Status := .running
  /-- What the job's live stream has published, where it has one. -/
  bus : Option (List Text) := none

def Job.publish (job : Job) (line : Text) : Job := { job with bus := job.bus.map (· ++ [line]) }

def artifactLinePrefix : Text := "\x1eBAJUTSU-ARTIFACT\x1e".toList

def handoffRequestPrefix : Text := "\x1eBAJUTSU-HANDOFF-REQUEST\x1e".toList

def takeLine (producesRun : Bool) (job : Job) (line : Text) : Job :=
  if artifactLinePrefix.isPrefixOf line then job
  else if handoffRequestPrefix.isPrefixOf line then
    if job.kind = some .record then { job with awaitingHuman := true }.publish line else job
  else
    let found := if producesRun then search line else none
    { job with lines := job.lines ++ [line], runId := found.or job.runId }.publish line

def producesRun (job : Job) : Bool := job.kind ≠ some .triage

/-- The lines up to the end of the child's output, whether the child exited or a cancel stopped it. -/
def spawned (job : Job) (lines : List Text) (exitCode : Int) (cancelled : Bool) : Job :=
  { lines.foldl (takeLine (producesRun job)) job with
    exitCode := some exitCode
    cancelled
    status := .done
    awaitingHuman := false }

/-! ## The run history -/

structure Manifest where
  label : Option Text
  target : Option Text

structure RunRecord where
  id : Text
  orgId : Text
  createdBy : Option Text
  ok : Bool
  label : Option Text
  target : Option Text

structure Repository where
  orgs : List Text
  users : List Text
  runs : List RunRecord

local instance lawfulText : LawfulBEq Text := inferInstance

/-- `merge` upserts by the primary key. -/
def Repository.recordRun (repo : Repository) (record : RunRecord) : Repository :=
  { repo with runs := repo.runs.filter (·.id ≠ record.id) ++ [record] }

def Repository.ensureOrg (repo : Repository) (org : Text) : Repository :=
  { repo with orgs := if org ∈ repo.orgs then repo.orgs else repo.orgs ++ [org] }

/-- An empty text is no text. -/
def orElse (text other : Option Text) : Option Text := text.filter (· ≠ []) |>.or other

def recordOf (repo : Repository) (job : Job) (runId : Text) (manifest : Option Manifest) : RunRecord where
  id := runId
  orgId := job.org
  createdBy := job.actor.filter fun actor => actor ≠ [] && actor ∈ repo.users
  ok := job.exitCode = some 0 && !job.cancelled
  label := orElse job.label (manifest.bind Manifest.label)
  target := manifest.bind Manifest.target

section

-- Whether a manifest can be read and what it says, and whether a row can be written.
variable (readManifest : Text → Text → Except Unit (Option Manifest)) (writes : RunRecord → Bool)

/-- An error is logged and changes nothing more. -/
def persistRun (repo : Repository) (job : Job) (runId : Text) : Repository :=
  match readManifest runId job.org with
  | .error () => repo
  | .ok manifest =>
    let repo := repo.ensureOrg job.org
    let record := recordOf repo job runId manifest
    if writes record then repo.recordRun record else repo

/-- `_persist_run`; a deployment without a database keeps no history. -/
def persist (repository : Option Repository) (job : Job) : Option Repository :=
  match job.runId with
  | none => repository
  | some runId => repository.map fun repo => persistRun readManifest writes repo job runId

end

/-! ## Trusted and untrusted lines -/

/-- The reporter's verdict. `above` is what the path of the manifest has in front of the run's id. -/
structure Verdict where
  ok : Bool
  above : Text
  runId : Text

def Verdict.line (verdict : Verdict) : Text :=
  (if verdict.ok then "PASS" else "FAIL").toList ++ "  ".toList ++ verdict.above ++ verdict.runId ++ "/manifest.json".toList

/-- What a child prints up to its end, with the verdict if the reporter came to write it. -/
structure Output where
  before : List Text
  verdict : Option Verdict
  after : List Text

def Output.lines (output : Output) : List Text :=
  output.before ++ output.verdict.toList.map Verdict.line ++ output.after

def Output.runId (output : Output) : Option Text := output.verdict.map Verdict.runId

/-- The job has the id of the run it made, and so has each row that is written for it. -/
structure OwnRun (output : Output) (job : Job) (before after : Option Repository) : Prop where
  job : job.runId = output.runId
  rows : ∀ repo ∈ after, ∀ row ∈ repo.runs, (∃ old ∈ before, row ∈ old.runs) ∨ some row.id = output.runId

/-! ## Which line decides -/

/-- The run whose manifest a line names to the job. -/
def named (producesRun : Bool) (line : Text) : Option Text :=
  if artifactLinePrefix.isPrefixOf line || handoffRequestPrefix.isPrefixOf line then none
  else if producesRun then search line else none

variable {kept : Bool} {job : Job} {line : Text}

theorem takeLine_runId : (takeLine kept job line).runId = (named kept line).or job.runId := by
  rw [takeLine, named]
  split
  · rename_i hArtifact
    rw [hArtifact]
    rfl
  · rename_i hArtifact
    split
    · rename_i hRequest
      rw [hRequest, Bool.or_true, if_pos rfl]
      split <;> rfl
    · rename_i hRequest
      have hKept : ¬ (artifactLinePrefix.isPrefixOf line || handoffRequestPrefix.isPrefixOf line) = true := by
        rw [Bool.or_eq_true, not_or]
        exact ⟨hArtifact, hRequest⟩
      rw [if_neg hKept]
      rfl

theorem foldl_takeLine_runId (lines : List Text) :
    (lines.foldl (takeLine kept) job).runId = (lines.filterMap (named kept)).getLast?.or job.runId := by
  induction lines generalizing job with
  | nil => rfl
  | cons line lines ih =>
    rw [List.foldl_cons, ih, takeLine_runId, List.filterMap_cons]
    cases named kept line with
    | none => rfl
    | some runId =>
      rw [List.getLast?_cons]
      cases (lines.filterMap (named kept)).getLast? <;> rfl

/-- The last line that names a run names the one of the verdict, and no line names one without a verdict. -/
def NamesOwn (kept : Bool) (output : Output) : Prop :=
  match output.runId with
  | none => ∀ line ∈ output.lines, named kept line = none
  | some runId => ∃ front line later, output.lines = front ++ line :: later ∧ named kept line = some runId ∧
      ∀ text ∈ later, named kept text = none

theorem getLast?_filterMap_eq_some {lines : List Text} {runId : Text} :
    (lines.filterMap (named kept)).getLast? = some runId ↔ ∃ front line later, lines = front ++ line :: later ∧
      named kept line = some runId ∧ ∀ text ∈ later, named kept text = none := by
  constructor
  · intro h
    induction lines using List.reverseRecOn with
    | nil => cases h
    | append_singleton lines line ih =>
      rw [List.filterMap_append, List.filterMap_cons, List.filterMap_nil] at h
      cases hNamed : named kept line with
      | none =>
        rw [hNamed, List.append_nil] at h
        obtain ⟨front, last, later, rfl, hLast, hLater⟩ := ih h
        refine ⟨front, last, later ++ [line], by rw [List.append_assoc, List.cons_append], hLast, ?_⟩
        intro text hMem
        rcases List.mem_append.mp hMem with hMem | hMem
        · exact hLater text hMem
        · rw [List.mem_singleton.mp hMem]
          exact hNamed
      | some other =>
        rw [hNamed, List.getLast?_append, List.getLast?_singleton] at h
        refine ⟨lines, line, [], rfl, ?_, nofun⟩
        rw [hNamed]
        exact h
  · rintro ⟨front, line, later, rfl, hNamed, hLater⟩
    rw [List.filterMap_append, List.filterMap_cons, hNamed, List.filterMap_eq_nil_iff.mpr hLater]
    exact List.getLast?_concat

theorem runId_spawned (lines : List Text) (exitCode : Int) (cancelled : Bool) (h : job.runId = none) :
    (spawned job lines exitCode cancelled).runId = (lines.filterMap (named (producesRun job))).getLast? := by
  have hFold : (spawned job lines exitCode cancelled).runId = (lines.foldl (takeLine (producesRun job)) job).runId := rfl
  rw [hFold, foldl_takeLine_runId, h, Option.or_none]

theorem namesOwn_iff (output : Output) :
    NamesOwn kept output ↔ (output.lines.filterMap (named kept)).getLast? = output.runId := by
  rw [NamesOwn]
  cases output.runId with
  | none => rw [List.getLast?_eq_none_iff, List.filterMap_eq_nil_iff]
  | some runId => exact getLast?_filterMap_eq_some.symm

theorem named_verdict {ok : Bool} {runId : Text} (hNe : runId ≠ []) (hChars : ∀ c ∈ runId, isIdChar c = true) :
    named true (Verdict.line ⟨ok, "runs/".toList, runId⟩) = some runId := by
  have hLine : Verdict.line ⟨ok, "runs/".toList, runId⟩ = ((if ok then "PASS" else "FAIL").toList ++ "  ".toList) ++
      ("runs/".toList ++ (runId ++ ("/manifest.json".toList ++ []))) := by
    unfold Verdict.line
    simp only [List.append_assoc, List.append_nil]
  have hWord : 'r' ∉ (if ok then "PASS" else "FAIL").toList ++ "  ".toList := by cases ok <;> decide
  have hSearch : search (Verdict.line ⟨ok, "runs/".toList, runId⟩) = some runId := by
    rw [hLine, search_skip hWord, show "runs/".toList = 'r' :: "uns/".toList by simp, List.cons_append, search,
      ← List.cons_append, show 'r' :: "uns/".toList = "runs/".toList by simp, idAtFront_path hNe hChars]
    rfl
  have hKept : (artifactLinePrefix.isPrefixOf (Verdict.line ⟨ok, "runs/".toList, runId⟩) ||
      handoffRequestPrefix.isPrefixOf (Verdict.line ⟨ok, "runs/".toList, runId⟩)) = false := by
    rw [hLine]
    cases ok <;> rfl
  rw [named, hKept, if_neg Bool.false_ne_true, if_pos rfl, hSearch]

/-- Where no other line names a run, the verdict on a run of the directory `runs` does. -/
theorem namesOwn_of_quiet {output : Output}
    (hVerdict : ∀ verdict ∈ output.verdict,
      verdict.above = "runs/".toList ∧ verdict.runId ≠ [] ∧ ∀ c ∈ verdict.runId, isIdChar c = true)
    (hQuiet : ∀ line ∈ output.before ++ output.after, named true line = none) : NamesOwn true output := by
  obtain ⟨before, verdict, after⟩ := output
  cases verdict with
  | none => simpa [NamesOwn, Output.runId, Output.lines] using hQuiet
  | some verdict =>
    obtain ⟨ok, above, runId⟩ := verdict
    obtain ⟨rfl, hNe, hChars⟩ := hVerdict _ rfl
    refine ⟨before, Verdict.line ⟨ok, "runs/".toList, runId⟩, after, ?_, named_verdict hNe hChars, ?_⟩
    · simp [Output.lines]
    · intro line hMem
      exact hQuiet line (List.mem_append_right before hMem)

/-! ## Rows -/

section

variable {readManifest : Text → Text → Except Unit (Option Manifest)} {writes : RunRecord → Bool}

theorem mem_persistRun {repo : Repository} {runId : Text} {row : RunRecord}
    (h : row ∈ (persistRun readManifest writes repo job runId).runs) : row ∈ repo.runs ∨ row.id = runId := by
  rw [persistRun] at h
  split at h
  · exact .inl h
  · dsimp only at h
    split at h
    · rw [Repository.recordRun, List.mem_append, List.mem_singleton] at h
      rcases h with hOld | rfl
      · exact .inl (List.mem_filter.mp hOld).1
      · exact .inr rfl
    · exact .inl h

theorem mem_persist {repository : Option Repository} {repo : Repository} {row : RunRecord}
    (hAfter : repo ∈ persist readManifest writes repository job) (h : row ∈ repo.runs) :
    (∃ old ∈ repository, row ∈ old.runs) ∨ some row.id = job.runId := by
  rw [persist] at hAfter
  split at hAfter
  · exact .inl ⟨repo, hAfter, h⟩
  · rename_i runId hRunId
    obtain ⟨old, hOld, rfl⟩ := Option.map_eq_some_iff.mp hAfter
    rcases mem_persistRun h with hMem | hId
    · exact .inl ⟨old, hOld, hMem⟩
    · rw [hRunId, hId]
      exact .inr rfl

/-- A job's id is its own run's exactly when its child's lines name it last. -/
theorem ownRun_iff (kind : Option JobKind) (org : Text) (actor label : Option Text) (bus : Option (List Text))
    (output : Output) (exitCode : Int) (cancelled : Bool) (repository : Option Repository) :
    let job := spawned { kind, org, actor, label, bus } output.lines exitCode cancelled
    OwnRun output job repository (persist readManifest writes repository job) ↔
      NamesOwn (decide (kind ≠ some .triage)) output := by
  intro job
  have hRunId : job.runId = (output.lines.filterMap (named (decide (kind ≠ some .triage)))).getLast? :=
    runId_spawned output.lines exitCode cancelled rfl
  rw [namesOwn_iff, ← hRunId]
  constructor
  · exact OwnRun.job
  · intro hOwn
    refine ⟨hOwn, ?_⟩
    intro repo hAfter row hRow
    rw [← hOwn]
    exact mem_persist hAfter hRow

end

/-- A scenario names a run of another day, and the job is cancelled before its verdict. -/
theorem scenario_line_taken :
    let job := spawned { kind := some .run, org := [], actor := none, label := none }
      ["see runs/20260101-000000/manifest.json".toList] (-15) true
    ¬ OwnRun ⟨["see runs/20260101-000000/manifest.json".toList], none, []⟩ job (some ⟨[], [], []⟩)
      (persist (fun _ _ => .ok none) (fun _ => true) (some ⟨[], [], []⟩) job) := by
  intro job hOwn
  have hTaken : (search "see runs/20260101-000000/manifest.json".toList).isSome = true := by decide +kernel
  have hRunId : job.runId = search "see runs/20260101-000000/manifest.json".toList := by
    rw [runId_spawned _ _ _ rfl]
    cases hSearch : search "see runs/20260101-000000/manifest.json".toList with
    | none =>
      rw [hSearch] at hTaken
      cases hTaken
    | some runId =>
      have hNamed : named true "see runs/20260101-000000/manifest.json".toList = some runId := by
        have hKept : (artifactLinePrefix.isPrefixOf "see runs/20260101-000000/manifest.json".toList ||
            handoffRequestPrefix.isPrefixOf "see runs/20260101-000000/manifest.json".toList) = false := by decide +kernel
        rw [named, hKept, if_neg Bool.false_ne_true, if_pos rfl, hSearch]
      rw [List.filterMap_cons, show producesRun _ = true from rfl, hNamed]
      rfl
  rw [← hRunId, hOwn.job] at hTaken
  cases hTaken

end Bajutsu.Serve.JobRunId
