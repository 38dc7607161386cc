import Bajutsu.Lib.Interleaving
import Bajutsu.Lib.PyValue
import Bajutsu.Lib.Table
import Mathlib.Data.List.Sort

/-!
# The job store

Workers and replicas lease, renew, finish, cancel and hand over jobs through one database. Each SQL
statement on a job's row is atomic; a call is the statements it runs, with anything of others between.
-/

namespace Bajutsu.Jobs

open Interleaving PyValue

/-- How a job ended. -/
inductive Outcome where
  | done
  | failed
  | cancelled
  deriving DecidableEq

inductive Status where
  | queued
  | leased
  | ended (outcome : Outcome)
  deriving DecidableEq

structure JobRecord where
  id : String
  orgId : String
  spec : Val
  capabilities : List String
  createdAt : Int
  status : Status
  leasedAt : Option Int
  leasedBy : Option String
  attempts : Nat
  cancelRequested : Bool
  handoffPending : Bool
  handoffResponse : Option String
  result : Val
  batchRunArn : Option String

/-- A row as `enqueue_job` inserts it. -/
def JobRecord.fresh (id orgId : String) (spec : Val) (capabilities : List String) (now : Int) :
    JobRecord where
  id := id
  orgId := orgId
  spec := spec
  capabilities := capabilities
  createdAt := now
  status := .queued
  leasedAt := none
  leasedBy := none
  attempts := 0
  cancelRequested := false
  handoffPending := false
  handoffResponse := none
  result := .dict []
  batchRunArn := none

/-- What the repository is built with, the dialect of its database, and what the routing says of a
worker: whether it can serve a job, and what a lease leaves in the job's spec. -/
structure Settings where
  leaseTimeout : Int
  maxAttempts : Nat
  positive : 0 < maxAttempts
  sqlite : Bool
  canServe : List String → List String → Bool
  stampProvenance : Val → List String → List String → Val

/-- The clock at a statement, and the rows that other transactions hold. -/
structure Moment where
  now : Int
  held : String → Bool

def cancelledJobResult (jobId : String) : Val :=
  .dict [("id", .str jobId), ("status", .str "done"), ("exitCode", .null), ("runId", .null),
    ("outPath", .null), ("cancelled", .bool true), ("ok", .bool false), ("awaitingHuman", .bool false)]

/-- The status, and terminal result if any, a reclaimed lease moves its job to. -/
def reclaimedOutcome (jobId : String) (attempts : Nat) (exhausted cancelling : Bool) :
    Status × Option Val :=
  if cancelling then (.ended .cancelled, some (cancelledJobResult jobId))
  else if exhausted then
    (.ended .failed, some (.dict [("error", .str s!"lease expired after {attempts} attempts")]))
  else (.queued, none)

/-! ## Statements -/

/-- The conditional updates of one row. -/
inductive Update where
  | claim (worker : String)
  | setSpec (spec : Val)
  | renew (worker : String)
  | reclaim (cutoff : Int) (previousAttempts : Nat) (cancelling : Bool)
  | finish (outcome : Outcome) (payload : Val) (worker : Option String)
  | cancelQueued
  | cancelLeased
  | openHandoff (worker : String)
  | answerHandoff (token : String)
  | clearResponse (worker token : String)
  | saveBatch (worker runArn : String)

/-- The row is leased by the worker. -/
def JobRecord.ownedBy (row : JobRecord) (worker : String) : Bool :=
  row.status = .leased && row.leasedBy = some worker

/-- The condition of an update, besides the row's id. -/
def Update.holds : Update → JobRecord → Bool
  | .claim _, row => row.status = .queued
  | .setSpec _, _ => true
  | .renew worker, row => row.ownedBy worker
  | .reclaim cutoff previousAttempts cancelling, row =>
    row.status = .leased && row.leasedAt.any (· < cutoff) && row.attempts = previousAttempts &&
      row.cancelRequested = cancelling
  | .finish _ _ none, row => row.status = .leased
  | .finish _ _ (some worker), row => row.ownedBy worker
  | .cancelQueued, row => row.status = .queued
  | .cancelLeased, row => row.status = .leased
  | .openHandoff worker, row => row.ownedBy worker && !row.handoffPending
  | .answerHandoff _, row => row.status = .leased && row.handoffPending && !row.cancelRequested
  | .clearResponse worker token, row => row.ownedBy worker && row.handoffResponse = some token
  | .saveBatch worker _, row => row.ownedBy worker

/-- The attempt a reclaim counts is the last one. -/
def Settings.exhausted (settings : Settings) (previousAttempts : Nat) : Bool :=
  settings.maxAttempts ≤ previousAttempts + 1

def Update.assign (settings : Settings) (now : Int) : Update → JobRecord → JobRecord
  | .claim worker, row => { row with status := .leased, leasedAt := some now, leasedBy := some worker }
  | .setSpec spec, row => { row with spec := spec }
  | .renew _, row => { row with leasedAt := some now }
  | .reclaim _ previousAttempts cancelling, row =>
    let outcome := reclaimedOutcome row.id (previousAttempts + 1) (settings.exhausted previousAttempts)
      cancelling
    { row with
      attempts := previousAttempts + 1
      leasedBy := none
      leasedAt := none
      handoffPending := false
      handoffResponse := none
      status := outcome.1
      result := outcome.2.getD row.result }
  | .finish outcome payload _, row =>
    { row with status := .ended outcome, result := payload, handoffPending := false, handoffResponse := none }
  | .cancelQueued, row =>
    { row with status := .ended .cancelled, result := cancelledJobResult row.id }
  | .cancelLeased, row => { row with cancelRequested := true }
  | .openHandoff _, row => { row with handoffPending := true, handoffResponse := none }
  | .answerHandoff token, row => { row with handoffPending := false, handoffResponse := some token }
  | .clearResponse _ _, row => { row with handoffResponse := none }
  | .saveBatch _ runArn, row => { row with batchRunArn := some runArn }

inductive Statement where
  | insert (id orgId : String) (spec : Val) (capabilities : List String)
  | update (id : String) (change : Update)
  | selectQueued
  | lockQueued (id : String)
  | selectJob (id : String)
  | selectExpired
  | selectResponse (id worker : String)

def Reply : Statement → Type
  | .insert .. => Bool
  | .update .. => Nat
  | .selectQueued => List (String × List String)
  | .lockQueued _ => Bool
  | .selectJob _ => Option JobRecord
  | .selectExpired => Int × List (String × Nat × Bool)
  | .selectResponse .. => Option String

abbrev Rows := List JobRecord

def Rows.job (rows : Rows) (id : String) : Option JobRecord := Table.find JobRecord.id rows id

def exec (settings : Settings) : (s : Statement) → Moment → Rows → Rows × Reply s
  | .insert id orgId spec capabilities, moment, rows =>
    Table.insert JobRecord.id (.fresh id orgId spec capabilities moment.now) rows
  | .update id change, moment, rows =>
    Table.updateOne JobRecord.id id change.holds (change.assign settings moment.now) rows
  | .selectQueued, _, rows =>
    (rows, ((rows.filter fun row => row.status = .queued).insertionSort
      fun a b => a.createdAt ≤ b.createdAt).map fun row => (row.id, row.capabilities))
  | .lockQueued id, moment, rows =>
    (rows, !moment.held id && (rows.job id).any fun row => row.status = .queued)
  | .selectJob id, _, rows => (rows, rows.job id)
  | .selectExpired, moment, rows =>
    (rows, moment.now - settings.leaseTimeout,
      ((rows.filter fun row => row.status = .leased &&
          row.leasedAt.any (· < moment.now - settings.leaseTimeout) &&
          (settings.sqlite || !moment.held row.id)).insertionSort
        fun a b => a.id ≤ b.id).map fun row => (row.id, row.attempts, row.cancelRequested))
  | .selectResponse id worker, _, rows =>
    (rows, (rows.job id).bind fun row => if row.ownedBy worker then row.handoffResponse else none)

/-! ## Calls -/

structure LeasedJob where
  id : String
  orgId : String
  spec : Val
  capabilities : List String

inductive Result where
  | enqueued (inserted : Bool)
  | applied (applied : Bool)
  | leased (job : Option LeasedJob)
  | requeued (jobIds : List String)
  | cancel (outcome : Option (Status × Bool))
  | token (token : Option String)
  | assertion

abbrev Program := Prog Statement Reply Result

/-- One conditional update, and whether it wrote the row. -/
def updateOne (id : String) (change : Update) : Program :=
  .stmt (.update id change) fun count : Nat => .ret (.applied (count = 1))

def reclaimEach (settings : Settings) (cutoff : Int) (andThen : List String → Program) :
    List (String × Nat × Bool) → List String → Program
  | [], requeued => andThen requeued
  | (id, previousAttempts, cancelling) :: expired, requeued =>
    .stmt (.update id (.reclaim cutoff previousAttempts cancelling)) fun count : Nat =>
      let outcome := reclaimedOutcome id (previousAttempts + 1) (settings.exhausted previousAttempts)
        cancelling
      reclaimEach settings cutoff andThen expired
        (if count = 1 ∧ outcome.1 = .queued then requeued ++ [id] else requeued)

def reclaimExpiredLeases (settings : Settings) (andThen : List String → Program) : Program :=
  .stmt .selectExpired fun scan : Int × List (String × Nat × Bool) =>
    reclaimEach settings scan.1 andThen scan.2 []

/-- What a worker that claimed the job is given. -/
def leaseClaimed (settings : Settings) (id : String) (capabilities advertised : List String) : Program :=
  .stmt (.selectJob id) fun row : Option JobRecord =>
    match row with
    | none => .ret .assertion
    | some row =>
      let spec := settings.stampProvenance row.spec capabilities advertised
      let leased := Result.leased (some ⟨row.id, row.orgId, spec, capabilities⟩)
      if spec = row.spec then .ret leased
      else .stmt (.update id (.setSpec spec)) fun _ => .ret leased

def leaseEach (settings : Settings) (worker : String) (advertised : List String) :
    List (String × List String) → Program
  | [] => .ret (.leased none)
  | (id, capabilities) :: candidates =>
    let claim : Program := .stmt (.update id (.claim worker)) fun count : Nat =>
      if count = 1 then leaseClaimed settings id capabilities advertised
      else leaseEach settings worker advertised candidates
    if !settings.canServe capabilities advertised then leaseEach settings worker advertised candidates
    else if settings.sqlite then claim
    else .stmt (.lockQueued id) fun locked : Bool =>
      if locked then claim else leaseEach settings worker advertised candidates

def leaseJob (settings : Settings) (worker : String) (advertised : List String) : Program :=
  reclaimExpiredLeases settings fun _ =>
    .stmt .selectQueued fun candidates : List (String × List String) =>
      leaseEach settings worker advertised candidates

def cancelAttempts : Nat := 5

/-- The queued-then-leased pair, retried while the row moves between the two. -/
def cancelTries (id : String) : Nat → Status → Program
  | 0, status => .ret (.cancel (some (status, false)))
  | tries + 1, _ =>
    .stmt (.update id .cancelQueued) fun queued : Nat =>
      if queued = 1 then .ret (.cancel (some (.ended .cancelled, true)))
      else .stmt (.update id .cancelLeased) fun leased : Nat =>
        if leased = 1 then .ret (.cancel (some (.leased, true)))
        else .stmt (.selectJob id) fun row : Option JobRecord =>
          match row with
          | none => .ret (.cancel none)
          | some row =>
            match row.status with
            | .ended outcome => .ret (.cancel (some (.ended outcome, false)))
            | status => cancelTries id tries status

def takeHandoffResponse (id worker : String) : Program :=
  .stmt (.selectResponse id worker) fun response : Option String =>
    match response with
    | none => .ret (.token none)
    | some token =>
      .stmt (.update id (.clearResponse worker token)) fun taken : Nat =>
        .ret (.token (if taken = 1 then some token else none))

inductive Call where
  | enqueueJob (id orgId : String) (spec : Val) (capabilities : List String)
  | leaseJob (worker : String) (advertised : List String)
  | heartbeatJob (id worker : String)
  | reclaimExpiredLeases
  | completeJob (id : String) (result : Val) (worker : Option String)
  | failJob (id error : String) (worker : Option String)
  | cancelLeasedJob (id : String) (result : Val) (worker : String)
  | cancelJob (id : String)
  | openHandoff (id worker : String)
  | answerHandoff (id token : String)
  | takeHandoffResponse (id worker : String)
  | saveBatchRunArn (id runArn worker : String)

def program (settings : Settings) : Call → Program
  | .enqueueJob id orgId spec capabilities =>
    .stmt (.insert id orgId spec capabilities) fun inserted : Bool => .ret (.enqueued inserted)
  | .leaseJob worker advertised => leaseJob settings worker advertised
  | .heartbeatJob id worker => updateOne id (.renew worker)
  | .reclaimExpiredLeases => reclaimExpiredLeases settings fun requeued => .ret (.requeued requeued)
  | .completeJob id result worker => updateOne id (.finish .done result worker)
  | .failJob id error worker => updateOne id (.finish .failed (.dict [("error", .str error)]) worker)
  | .cancelLeasedJob id result worker => updateOne id (.finish .cancelled result (some worker))
  | .cancelJob id => cancelTries id cancelAttempts .queued
  | .openHandoff id worker => updateOne id (.openHandoff worker)
  | .answerHandoff id token => updateOne id (.answerHandoff token)
  | .takeHandoffResponse id worker => takeHandoffResponse id worker
  | .saveBatchRunArn id runArn worker => updateOne id (.saveBatch worker runArn)

def store (settings : Settings) : Machine Rows Statement Reply Moment Call Program :=
  .ofProg (exec settings) (program settings)

abbrev System := Config Rows Statement Reply Moment Call Program

/-- A state of a run that starts on an empty table. -/
def Reachable (settings : Settings) (st : System) : Prop :=
  (store settings).Reaches (.init []) st

/-- The call has returned the result. -/
def Returned (st : System) (thread : Nat) (call : Call) (result : Result) : Prop :=
  st.threads[thread]? = some (call, .ret result)

end Bajutsu.Jobs
