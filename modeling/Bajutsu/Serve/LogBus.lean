import Bajutsu.Lib.Interleaving
import Bajutsu.Lib.PyValue

/-!
# The in-memory log bus

Each job's lines are buffered on a channel, which a subscriber reads from its own index. A subscriber that
finds nothing new waits, and may wake at any time.
-/

namespace Bajutsu.Serve.LogBus

open Interleaving PyValue

structure Channel where
  lines : List String
  closed : Bool
  final : Option String

/-- The channels made so far, at their addresses, with those the jobs have now. -/
structure Bus where
  chans : List (String × Nat)
  heap : List Channel

/-- What a subscriber reads at once: the lines from its index, the number of lines, and whether the channel is closed. -/
structure Reading where
  batch : List String
  count : Nat
  done : Bool

/-- The bodies of the bus under its lock, and of a channel under its condition. A subscriber's wait splits its
body into one before it and one after it. -/
inductive Statement where
  | chan (job : String)
  | find (job : String)
  | discard (job : String)
  | append (address : Nat) (lines : List String)
  | close (address : Nat) (final : Option String)
  | readFinal (address : Nat)
  | check (address index : Nat)
  | wake (address index : Nat)
  | yield (item : Option String)
  deriving DecidableEq

def Reply : Statement → Type
  | .chan _ => Nat
  | .find _ => Option Nat
  | .discard _ => Unit
  | .append .. => Unit
  | .close .. => Unit
  | .readFinal _ => Option String
  | .check .. => Option Reading
  | .wake .. => Reading
  | .yield _ => Unit

def Channel.empty : Channel := ⟨[], false, none⟩

def Bus.at (bus : Bus) (address : Nat) : Channel := bus.heap[address]?.getD .empty

def Channel.read (channel : Channel) (index : Nat) : Reading :=
  ⟨channel.lines.drop index, channel.lines.length, channel.closed⟩

def exec : (s : Statement) → Unit → Bus → Bus × Reply s
  | .chan job, _, bus =>
    match get bus.chans job with
    | some address => (bus, address)
    | none => (⟨set bus.chans job bus.heap.length, bus.heap ++ [.empty]⟩, bus.heap.length)
  | .find job, _, bus => (bus, get bus.chans job)
  | .discard job, _, bus => ({ bus with chans := pop bus.chans job }, ())
  | .append address lines, _, bus =>
    ({ bus with heap := bus.heap.modify address fun ch => { ch with lines := ch.lines ++ lines } }, ())
  | .close address final, _, bus =>
    ({ bus with heap := bus.heap.modify address fun ch => { ch with closed := true, final := final <|> ch.final } }, ())
  | .readFinal address, _, bus => (bus, (bus.at address).final)
  | .check address index, _, bus =>
    let ch := bus.at address
    (bus, if ch.lines.length ≤ index ∧ ch.closed = false then none else some (ch.read index))
  | .wake address index, _, bus => (bus, (bus.at address).read index)
  | .yield _, _, bus => (bus, ())

inductive Call where
  | publish (job line : String)
  | publishMany (job : String) (lines : List String)
  | discard (job : String)
  | close (job : String) (final : Option String)
  | final (job : String)
  | stream (job : String) (timeout : Option ℚ)

def Call.job : Call → String
  | .publish job _ => job
  | .publishMany job _ => job
  | .discard job => job
  | .close job _ => job
  | .final job => job
  | .stream job _ => job

abbrev Program := Prog Statement Reply (Option String)

/-- Where a call stands: in the body of a method that returns, or in the loop of a stream. -/
inductive Place where
  | program (p : Program)
  | opening (job : String) (timeout : Option ℚ)
  | checking (address index : Nat) (timeout : Option ℚ)
  | waiting (address index : Nat) (timeout : Option ℚ)
  | yielding (address index : Nat) (item : Option String) (items : List String) (timeout : Option ℚ)
  | ended

def start : Call → Place
  | .publish job line =>
    .program (.stmt (.chan job) fun address => .stmt (.append address [line]) fun _ => .ret none)
  | .publishMany job lines =>
    .program (.stmt (.chan job) fun address => .stmt (.append address lines) fun _ => .ret none)
  | .discard job => .program (.stmt (.discard job) fun _ => .ret none)
  | .close job final =>
    .program (.stmt (.chan job) fun address => .stmt (.close address final) fun _ => .ret none)
  | .final job =>
    .program (.stmt (.find job) fun
      | none => .ret none
      | some address => .stmt (.readFinal address) fun final => .ret final)
  | .stream job timeout => .opening job timeout

/-- The loop goes on with what it read. -/
def afterReading (address : Nat) (timeout : Option ℚ) (reading : Reading) : Place :=
  match reading.batch with
  | line :: lines => .yielding address reading.count (some line) lines timeout
  | [] =>
    if reading.done then .ended
    else if timeout.isSome then .yielding address reading.count none [] timeout
    else .checking address reading.count timeout

def next : Place → Option ((s : Statement) × (Reply s → Place))
  | .program p => p.next.map fun ⟨s, rest⟩ => ⟨s, fun reply => .program (rest reply)⟩
  | .opening job timeout => some ⟨.chan job, fun address => .checking address 0 timeout⟩
  | .checking address index timeout =>
    some ⟨.check address index, fun
      | none => .waiting address index timeout
      | some reading => afterReading address timeout reading⟩
  | .waiting address index timeout => some ⟨.wake address index, fun reading => afterReading address timeout reading⟩
  | .yielding address index item items timeout =>
    some ⟨.yield item, fun _ =>
      match items with
      | [] => .checking address index timeout
      | line :: lines => .yielding address index (some line) lines timeout⟩
  | .ended => none

def bus : Machine Bus Statement Reply Unit Call Place := ⟨exec, start, next⟩

abbrev System := Config Bus Statement Reply Unit Call Place

def Reachable (st : System) : Prop := bus.Reaches (.init ⟨[], []⟩) st

abbrev Ran := Event Statement Reply Unit

end Bajutsu.Serve.LogBus
