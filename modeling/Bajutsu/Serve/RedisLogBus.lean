import Bajutsu.Lib.Interleaving
import Bajutsu.Lib.PyValue

/-!
# The log bus over Redis

A job's lines are a Redis list and its end is a flag under a second key, so publishers and subscribers on any
number of replicas share them. Each Redis command is one statement. A key that has a lifetime may be evicted by
Redis at any time, which is a call of its own here.
-/

namespace Bajutsu.Serve.RedisLogBus

open Interleaving PyValue

inductive Key where
  | lines (job : String)
  | done (job : String)
  deriving DecidableEq

def Key.job : Key → String
  | .lines job => job
  | .done job => job

def Key.name : Key → String
  | .lines job => "bajutsu:log:" ++ job
  | .done job => "bajutsu:logdone:" ++ job

inductive Value where
  | list (items : List String)
  | text (value : String)

/-- What a key holds, and whether it has a lifetime. -/
structure Entry where
  value : Value
  expires : Bool

abbrev Redis := List (String × Entry)

inductive Statement where
  | rpush (job : String) (values : List String)
  | expire (key : Key) (seconds : Int)
  | set (job value : String)
  | get (job : String)
  | lrange (job : String) (start : Nat)
  | evict (key : Key)
  | yield (item : Option String)
  deriving DecidableEq

/-- A command on a key of another type has no reply. -/
def Reply : Statement → Type
  | .rpush .. => Option Unit
  | .expire .. => Unit
  | .set .. => Unit
  | .get _ => Option (Option String)
  | .lrange .. => Option (List String)
  | .evict _ => Bool
  | .yield _ => Unit

def Redis.list (redis : Redis) (key : Key) : Option (List String) :=
  match PyValue.get redis key.name with
  | none => some []
  | some ⟨.list items, _⟩ => some items
  | some ⟨.text _, _⟩ => none

def Redis.text (redis : Redis) (key : Key) : Option (Option String) :=
  match PyValue.get redis key.name with
  | none => some none
  | some ⟨.text value, _⟩ => some (some value)
  | some ⟨.list _, _⟩ => none

def Redis.expires (redis : Redis) (key : Key) : Bool := (PyValue.get redis key.name).any Entry.expires

/-- A push keeps the list's lifetime, and setting a key clears it. A lifetime that is not positive removes the key. -/
def exec : (s : Statement) → Unit → Redis → Redis × Reply s
  | .rpush job values, _, redis =>
    match redis.list (.lines job) with
    | none => (redis, none)
    | some items =>
      (PyValue.set redis (Key.lines job).name ⟨.list (items ++ values), redis.expires (.lines job)⟩, some ())
  | .expire key seconds, _, redis =>
    if seconds ≤ 0 then (pop redis key.name, ())
    else
      match PyValue.get redis key.name with
      | none => (redis, ())
      | some entry => (PyValue.set redis key.name { entry with expires := true }, ())
  | .set job value, _, redis => (PyValue.set redis (Key.done job).name ⟨.text value, false⟩, ())
  | .get job, _, redis => (redis, redis.text (.done job))
  | .lrange job start, _, redis => (redis, (redis.list (.lines job)).map (List.drop start))
  | .evict key, _, redis => if redis.expires key then (pop redis key.name, true) else (redis, false)
  | .yield _, _, redis => (redis, ())

/-- The bus's own settings, in seconds. -/
structure Settings (N : Type) where
  poll : N
  ttl : Int

inductive Call (N : Type) where
  | publish (job line : String)
  | publishMany (job : String) (lines : List String)
  | close (job : String) (final : Option String)
  | final (job : String)
  | stream (job : String) (timeout : Option N)
  | evict (key : Key)

/-- What a method returns, unless a command raises. -/
abbrev Program := Prog Statement Reply (Option (Option String))

/-- A stream's variables. -/
structure Cursor (N : Type) where
  job : String
  timeout : Option N
  seen : Nat
  idle : N

/-- Where a call stands: in the body of a method that returns, or in the loop of a stream. -/
inductive Place (N : Type) where
  | program (p : Program)
  | reading (c : Cursor N)
  | asking (c : Cursor N)
  | draining (c : Cursor N)
  | yielding (c : Cursor N) (item : Option String) (items : List String)
  | ended
  | raised

def publishMany (ttl : Int) (job : String) (lines : List String) : Program :=
  if lines = [] then .ret (some none)
  else
    .stmt (.rpush job lines) fun
      | none => .ret none
      | some () => .stmt (.expire (.lines job) ttl) fun _ => .ret (some none)

def close (ttl : Int) (job : String) (final : Option String) : Program :=
  .stmt (.set job (final.getD "1")) fun _ =>
    .stmt (.expire (.lines job) ttl) fun _ => .stmt (.expire (.done job) ttl) fun _ => .ret (some none)

def final (job : String) : Program :=
  .stmt (.get job) fun
    | none => .ret none
    | some none => .ret (some none)
    | some (some text) => .ret (some (if text = "1" then none else some text))

section Streams

variable {N : Type} [Zero N] [Add N] [LE N] [DecidableLE N]

def start (settings : Settings N) : Call N → Place N
  | .publish job line => .program (publishMany settings.ttl job [line])
  | .publishMany job lines => .program (publishMany settings.ttl job lines)
  | .close job final => .program (close settings.ttl job final)
  | .final job => .program (RedisLogBus.final job)
  | .stream job timeout => .reading ⟨job, timeout, 0, 0⟩
  | .evict key => .program (.stmt (.evict key) fun _ => .ret (some none))

/-- The loop yields the lines it read, one by one. -/
def deliver (c : Cursor N) : List String → Place N
  | [] => .reading c
  | line :: lines => .yielding c (some line) lines

/-- The loop after its sleep: a heartbeat when the stream has been idle for its timeout. -/
def slept (poll : N) (c : Cursor N) : Place N :=
  match c.timeout with
  | none => .reading c
  | some timeout =>
    if timeout ≤ c.idle + poll then .yielding { c with idle := 0 } none []
    else .reading { c with idle := c.idle + poll }

def afterBatch (c : Cursor N) : Option (List String) → Place N
  | none => .raised
  | some [] => .asking c
  | some (line :: lines) => .yielding { c with seen := c.seen + (line :: lines).length, idle := 0 } (some line) lines

def afterFlag (poll : N) (c : Cursor N) : Option (Option String) → Place N
  | none => .raised
  | some none => slept poll c
  | some (some _) => .draining c

def afterTail (c : Cursor N) : Option (List String) → Place N
  | none => .raised
  | some [] => .ended
  | some (line :: lines) => .yielding { c with seen := c.seen + (line :: lines).length } (some line) lines

def next (settings : Settings N) : Place N → Option ((s : Statement) × (Reply s → Place N))
  | .program p => p.next.map fun ⟨s, rest⟩ => ⟨s, fun reply => .program (rest reply)⟩
  | .reading c => some ⟨.lrange c.job c.seen, afterBatch c⟩
  | .asking c => some ⟨.get c.job, afterFlag settings.poll c⟩
  | .draining c => some ⟨.lrange c.job c.seen, afterTail c⟩
  | .yielding c item items => some ⟨.yield item, fun _ => deliver c items⟩
  | .ended => none
  | .raised => none

def bus (settings : Settings N) : Machine Redis Statement Reply Unit (Call N) (Place N) :=
  ⟨exec, start settings, next settings⟩

end Streams

abbrev System (N : Type) := Config Redis Statement Reply Unit (Call N) (Place N)

abbrev Ran := Event Statement Reply Unit

/-- The key that an event removed. -/
def removed : Ran → Option Key
  | ⟨_, _, .evict key, gone⟩ => cond gone (some key) none
  | ⟨_, _, .expire key seconds, _⟩ => if seconds ≤ 0 then some key else none
  | _ => none

def pushed (job : String) : Statement → List String
  | .rpush job' values => if job' = job then values else []
  | _ => []

/-- A job's lines: those published since its list last expired, in the order they were published. -/
def linesOf (job : String) (log : List Ran) : List String :=
  log.foldl (fun lines event => if removed event = some (.lines job) then [] else lines ++ pushed job event.stmt) []

def Closes (job : String) (event : Ran) : Prop := ∃ value, event.stmt = .set job value

def yielded : Ran → Option String
  | ⟨_, _, .yield item, _⟩ => item
  | _ => none

/-- The lines a subscriber received, without the heartbeats. -/
def received (thread : Nat) (log : List Ran) : List String := (Machine.eventsOf thread log).filterMap yielded

end Bajutsu.Serve.RedisLogBus
