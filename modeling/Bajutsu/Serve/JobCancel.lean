import Bajutsu.Lib.Transition

/-!
# Cancelling a job's children

One thread runs the job: it boots the devices, builds the app if it is missing and runs the command, each as a
child process that it registers on the job. Any number of other threads cancel the job, directly or through a
relay. Each section under a lock is one step, and so is each signal; a child exits by itself.
-/

namespace Bajutsu.Serve.JobCancel

inductive Signal where
  | term
  | kill
  deriving DecidableEq

/-- A process that was started: the code it exited with, and the signals it was sent. -/
structure Child where
  exit : Option Int
  signals : List Signal
  deriving DecidableEq

/-- `bound` says whether `_job` is set. -/
structure Relay where
  bound : Bool
  requested : Bool
  killRequested : Bool
  deriving DecidableEq

structure Job where
  done : Bool
  exitCode : Option Int
  cancelled : Bool
  proc : Option Nat
  procGraceful : Bool
  killRequested : Bool
  deriving DecidableEq

/-- What `view` says of a job: nothing of one that still runs. -/
def Job.ok (job : Job) : Option Bool := if job.done then some (job.exitCode = some 0 && !job.cancelled) else none

structure Shared where
  relay : Relay
  job : Job
  children : List Child
  deriving DecidableEq

namespace Shared

variable (shared : Shared) (child : Nat)

def exitOf : Option Int := (shared.children[child]?).bind Child.exit

def signalsOf : List Signal := (shared.children[child]?).elim [] Child.signals

/-- A process that was started and has not exited. -/
def running : Bool := (shared.children[child]?).any fun c => c.exit = none

/-- `_terminate` and `_kill`. -/
def signal (s : Signal) : Shared :=
  { shared with children := shared.children.modify child fun c => { c with signals := c.signals ++ [s] } }

def popen : Shared := { shared with children := shared.children ++ [⟨none, []⟩] }

def exited (code : Int) : Shared :=
  { shared with children := shared.children.modify child fun c => { c with exit := some code } }

/-- The section of `_register_proc`: whether the child is to be stopped, and whether hard. -/
def registerProc (graceful : Bool) : Shared × Bool × Bool :=
  let hard := shared.job.killRequested
  let kill := shared.job.cancelled || hard
  ({ shared with job := { shared.job with proc := some child, procGraceful := graceful && !kill } }, kill, hard)

/-- A phase that ends the job by itself. The last child stays registered. -/
def fail (code : Int) : Shared :=
  { shared with job := { shared.job with exitCode := some code, done := true } }

/-- The end of a job whose child has exited. -/
def finish (code : Int) : Shared :=
  { shared with job := { shared.job with exitCode := some code, done := true, proc := none, procGraceful := false } }

end Shared

/-! ## The run thread -/

inductive Phase where
  | build
  | run
  deriving DecidableEq

/-- A job with devices to boot, with an app to build, whose run answers a cancel by itself. -/
structure Settings where
  boots : Bool
  builds : Bool
  gracefulCancel : Bool

/-- Where `_run_job` stands. A child's output is `reading` until it ends or `breaking`, when reading it raised. -/
inductive RunPlace where
  | booting
  | spawning (phase : Phase)
  | registering (phase : Phase) (child : Nat)
  | stopping (child : Nat) (hard : Bool)
  | reaping (child : Nat)
  | refused (code : Int)
  | reading (phase : Phase) (child : Nat)
  | breaking (phase : Phase) (child : Nat)
  | waiting (phase : Phase) (child : Nat)
  | failing (code : Int)
  | finishing (child : Nat) (code : Int)
  | sweeping (child : Nat)
  | returned
  | raised
  deriving DecidableEq

/-- A step of the run thread. The input says whether the devices boot, the process starts, or the output is read to
its end. -/
def RunPlace.step (settings : Settings) (shared : Shared) (input : Bool) : RunPlace → Option (Shared × RunPlace)
  | .booting =>
    if settings.boots && !input then some (shared, .failing 1)
    else some (shared, .spawning (if settings.builds then .build else .run))
  | .spawning phase =>
    if input then some (shared.popen, .registering phase shared.children.length)
    else
      match phase with
      | .build => some (shared, .failing 1)
      | .run => some (shared, .raised)
  | .registering phase child =>
    let graceful := phase = .run && settings.gracefulCancel
    match shared.registerProc child graceful with
    | (shared, true, hard) => some (shared, .stopping child hard)
    | (shared, false, _) => some (shared, .reading phase child)
  | .stopping child hard => some (shared.signal child (if hard then .kill else .term), .reaping child)
  | .reaping child => (shared.exitOf child).map fun code => (shared, .refused (if code = 0 then 1 else code))
  | .refused code => some (shared.finish code, .returned)
  | .reading phase child => some (shared, if input then .waiting phase child else .breaking phase child)
  | .breaking phase child => some (shared.signal child .term, .waiting phase child)
  | .waiting phase child =>
    (shared.exitOf child).map fun code =>
      match phase with
      | .build => (shared, if code = 0 then .spawning .run else .failing code)
      | .run => (shared, .finishing child code)
  | .failing code => some (shared.fail code, .returned)
  | .finishing child code =>
    let swept := shared.job.cancelled && shared.job.procGraceful
    some (shared.finish code, if swept then .sweeping child else .returned)
  | .sweeping child => some (shared.signal child .term, .returned)
  | .returned => none
  | .raised => none

/-! ## The calls -/

/-- `escalate` is the timer that a graceful stop starts. -/
inductive Call where
  | cancelJob
  | bind
  | request
  | kill
  | escalate (child : Nat)
  deriving DecidableEq

/-- Where a call stands: a `cancel_job` is `asking` the child alone and then `terminating` its group if that failed, a
`bind` is `latching` a hard kill before it delivers a cancel that is pending. -/
inductive Place where
  | flagging
  | asking (child : Nat)
  | terminating (child : Nat)
  | answered (stopped : Bool)
  | binding
  | latching (pending : Bool)
  | requesting
  | killing
  | checking
  | shooting (child : Nat)
  | shot (child : Nat)
  | polling (child : Nat)
  | ending (child : Nat)
  | unwinding (child : Nat)
  | forcing (child : Nat)
  | returned
  deriving DecidableEq

def Call.start : Call → Place
  | .cancelJob => .flagging
  | .bind => .binding
  | .request => .requesting
  | .kill => .killing
  | .escalate child => .polling child

/-- A step of a call. The input says whether the child could be asked. A child that was asked has a timer started
for it. -/
def Place.step (shared : Shared) (input : Bool) : Place → Option (Shared × Place × List Call)
  | .flagging =>
    if shared.job.done then some (shared, .answered false, [])
    else
      let place :=
        match shared.job.proc with
        | none => .answered true
        | some child => if shared.job.procGraceful then .asking child else .terminating child
      some ({ shared with job := { shared.job with cancelled := true } }, place, [])
  | .asking child =>
    if input then some (shared.signal child .term, .answered true, [.escalate child])
    else some (shared, .terminating child, [])
  | .terminating child => some (shared.signal child .term, .answered true, [])
  | .answered _ => none
  | .binding =>
    let place :=
      if shared.relay.killRequested then .latching shared.relay.requested
      else if shared.relay.requested then .flagging
      else .returned
    some ({ shared with relay := { shared.relay with bound := true } }, place, [])
  | .latching pending =>
    some ({ shared with job := { shared.job with killRequested := true } },
      if pending then .flagging else .returned, [])
  | .requesting =>
    if shared.relay.requested then some (shared, .returned, [])
    else
      some ({ shared with relay := { shared.relay with requested := true } },
        if shared.relay.bound then .flagging else .returned, [])
  | .killing =>
    if shared.relay.bound then some (shared, .checking, [])
    else some ({ shared with relay := { shared.relay with killRequested := true } }, .returned, [])
  | .checking =>
    match shared.job.proc.filter shared.running with
    | none => some ({ shared with job := { shared.job with killRequested := true } }, .returned, [])
    | some child => some (shared, .shooting child, [])
  | .shooting child => some (shared.signal child .kill, .shot child, [])
  | .shot _ => none
  | .polling child => some (shared, if shared.running child then .ending child else .returned, [])
  | .ending child => some (shared.signal child .term, .unwinding child, [])
  | .unwinding child => some (shared, if shared.running child then .forcing child else .returned, [])
  | .forcing child => some (shared.signal child .kill, .returned, [])
  | .returned => none

/-! ## All threads -/

structure System where
  shared : Shared
  run : RunPlace
  calls : List (Call × Place)
  deriving DecidableEq

inductive Label where
  | run (input : Bool)
  | call (c : Call)
  | step (n : Nat) (input : Bool)
  | exit (child : Nat) (code : Int)

def started (calls : List Call) : List (Call × Place) := calls.map fun c => (c, c.start)

namespace System

def step (settings : Settings) (st : System) : Label → Option System
  | .run input => (st.run.step settings st.shared input).map fun (shared, run) => { st with shared, run }
  | .call (.escalate _) => none
  | .call c => some { st with calls := st.calls ++ started [c] }
  | .step n input =>
    match st.calls[n]? with
    | none => none
    | some (c, place) =>
      (place.step st.shared input).map fun (shared, place, timers) =>
        { st with shared, calls := st.calls.set n (c, place) ++ started timers }
  | .exit child code => if st.shared.running child then some { st with shared := st.shared.exited child code } else none

/-- A job that was just made, and a new relay. -/
def init : System :=
  ⟨⟨⟨false, false, false⟩, ⟨false, none, false, none, false, false⟩, []⟩, .booting, []⟩

/-- A `cancel_job` returned true. -/
def cancelReturned (st : System) : Prop := ∃ c, (c, Place.answered true) ∈ st.calls

/-- A `kill` returned: it was latched, or it shot a child. -/
def killReturned (st : System) : Prop :=
  (Call.kill, Place.returned) ∈ st.calls ∨ ∃ child, (Call.kill, Place.shot child) ∈ st.calls

/-- A `kill` found the child running. -/
def found (st : System) (child : Nat) : Bool :=
  st.calls.any fun (c, place) => c = .kill && (place = .shooting child || place = .shot child)

/-- The run goes on if the child, a build, exits with 0. -/
def builds (st : System) (child : Nat) : Bool :=
  st.run = .reading .build child || st.run = .breaking .build child || st.run = .waiting .build child

end System

end Bajutsu.Serve.JobCancel
