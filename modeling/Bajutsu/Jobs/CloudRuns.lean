import Bajutsu.Jobs.Store

/-!
# Cloud runs of a batch job

A worker that leases a batch job submits once. It collects the run that is stored on the job's row, or it
schedules one at the service and posts the run's ARN to the server until the server answers or it gives up and
stops the run. Posts that the worker no longer waits for may still reach the server.
-/

namespace Bajutsu.Jobs.CloudRuns

/-- Where a submit stands. It is `scheduled` from the scheduling to the end of the save. -/
inductive Phase where
  | claimed
  | leased (stored : Option String)
  | scheduled (runArn : String)
  | stopping (runArn : String)
  | collecting (runArn : String)
  | over
  deriving DecidableEq

structure Submit where
  worker : String
  phase : Phase

/-- Where the server stands with a posted ARN: between its read and its write it is `unmatched`. -/
inductive Stage where
  | posted
  | unmatched
  | answered (code : Nat)
  deriving DecidableEq

structure Post where
  submit : Nat
  runArn : String
  stage : Stage

/-- The job's row, the submits so far with the posts they sent, and the runs that were scheduled, each by its submit,
and that were asked to stop. -/
structure System where
  row : JobRecord
  submits : List Submit
  posts : List Post
  scheduled : List (Nat × String)
  stopped : List String

/-- A call of `giveUp` that fails or is interrupted ends the submit, or the save. -/
inductive Label where
  | update (now : Int) (change : Update)
  | claim (now : Int) (worker : String)
  | readStored (n : Nat)
  | resume (n : Nat)
  | schedule (n : Nat) (runArn : String)
  | post (n : Nat)
  | load (k : Nat)
  | save (now : Int) (k : Nat)
  | drop (k code : Nat)
  | receive (k : Nat)
  | giveUp (n : Nat)
  | stop (n : Nat)

/-- A statement of the other routes: all but the lease and the save. -/
def foreign : Update → Bool
  | .claim _ => false
  | .saveBatch .. => false
  | _ => true

def applied (settings : Settings) (now : Int) (change : Update) (row : JobRecord) : JobRecord :=
  if change.holds row then change.assign settings now row else row

def isArn (runArn : String) : Bool := "arn:".toList.isPrefixOf runArn.toList

namespace System

variable (st : System)

def phase (n : Nat) : Option Phase := (st.submits[n]?).map Submit.phase

def moved (n : Nat) (phase : Phase) : System :=
  { st with submits := st.submits.modify n fun s => { s with phase := phase } }

def staged (k : Nat) (stage : Stage) : System :=
  { st with posts := st.posts.modify k fun post => { post with stage := stage } }

def Stage.open : Stage → Bool
  | .answered _ => false
  | _ => true

/-- A submit that goes on, or has a post that is not answered. -/
def live (n : Nat) : Bool :=
  (st.phase n).any (· ≠ .over) || st.posts.any fun post => post.submit = n && Stage.open post.stage

/-- The calls of the worker's earlier leases were answered. -/
def quiet (worker : String) : Bool :=
  (List.range st.submits.length).all fun n => !((st.submits[n]?).any (·.worker = worker) && st.live n)

/-- The reply to a post, when its ARN has been read. -/
def read (runArn : String) : Stage :=
  if !isArn runArn then .answered 400
  else if st.row.batchRunArn = some runArn then .answered 200
  else .unmatched

def step (settings : Settings) : Label → Option System
  | .update now change => if foreign change then some { st with row := applied settings now change st.row } else none
  | .claim now worker =>
    if worker ≠ "" ∧ (Update.claim worker).holds st.row ∧ st.quiet worker then
      some { st with
        row := applied settings now (.claim worker) st.row
        submits := st.submits ++ [⟨worker, .claimed⟩] }
    else none
  | .readStored n =>
    match st.phase n with
    | some .claimed => some (st.moved n (.leased st.row.batchRunArn))
    | _ => none
  | .resume n =>
    match st.phase n with
    | some (.leased (some runArn)) => some (st.moved n (.collecting runArn))
    | _ => none
  | .schedule n runArn =>
    match st.phase n with
    | some (.leased none) =>
      if runArn ∈ st.scheduled.map Prod.snd then none
      else some { st.moved n (.scheduled runArn) with scheduled := st.scheduled ++ [(n, runArn)] }
    | _ => none
  | .post n =>
    match st.phase n with
    | some (.scheduled runArn) => some { st with posts := st.posts ++ [⟨n, runArn, .posted⟩] }
    | _ => none
  | .load k =>
    match st.posts[k]? with
    | some ⟨_, runArn, .posted⟩ => some (st.staged k (st.read runArn))
    | _ => none
  | .save now k =>
    match st.posts[k]? with
    | some ⟨n, runArn, .unmatched⟩ =>
      match st.submits[n]? with
      | none => none
      | some s =>
        let change := Update.saveBatch s.worker runArn
        some ({ st with row := applied settings now change st.row }.staged k
          (.answered (if change.holds st.row then 200 else 409)))
    | _ => none
  | .drop k code =>
    match st.posts[k]? with
    | none => none
    | some post => if Stage.open post.stage ∧ code ≠ 200 then some (st.staged k (.answered code)) else none
  | .receive k =>
    match st.posts[k]? with
    | some ⟨n, runArn, .answered code⟩ =>
      if st.phase n = some (.scheduled runArn) then
        if code = 200 then some (st.moved n (.collecting runArn))
        else if 400 ≤ code ∧ code < 500 then some (st.moved n (.stopping runArn))
        else some st
      else none
    | _ => none
  | .giveUp n =>
    match st.phase n with
    | some .claimed => some (st.moved n .over)
    | some (.leased _) => some (st.moved n .over)
    | some (.collecting _) => some (st.moved n .over)
    | some (.scheduled runArn) => some (st.moved n (.stopping runArn))
    | _ => none
  | .stop n =>
    match st.phase n with
    | some (.stopping runArn) => some { st.moved n .over with stopped := st.stopped ++ [runArn] }
    | some (.collecting runArn) => some { st.moved n .over with stopped := st.stopped ++ [runArn] }
    | _ => none

def run (settings : Settings) (st : System) : List Label → Option System
  | [] => some st
  | label :: labels => (st.step settings label).bind fun st => run settings st labels

end System

inductive Reaches (settings : Settings) : System → System → Prop where
  | refl (st : System) : Reaches settings st st
  | tail {st mid fin : System} {label : Label} (h : Reaches settings st mid) (hStep : mid.step settings label = some fin) :
      Reaches settings st fin

/-- A batch job that was just enqueued. -/
def enqueued (row : JobRecord) : System := ⟨row, [], [], [], []⟩

end Bajutsu.Jobs.CloudRuns
