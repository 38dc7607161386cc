import Bajutsu.Serve.RedisLogBus

/-!
# What the subscribers of the Redis bus receive

Redis holds each job's lines under the job's first key and nothing but its flag under the second one. A subscriber
that is attached has received the lines before its index, or is being given the last of them.
-/

namespace Bajutsu.Serve.RedisLogBus

open Interleaving PyValue

variable {redis redis' : Redis} {log : List Ran} {event : Ran} {job : String}

def Statement.writes : Statement → Option Key
  | .rpush job _ => some (.lines job)
  | .expire key _ => some key
  | .set job _ => some (.done job)
  | .evict key => some key
  | _ => none

theorem linesOf_append : linesOf job (log ++ [event]) =
    if removed event = some (.lines job) then [] else linesOf job log ++ pushed job event.stmt :=
  List.foldl_append ..

theorem linesOf_quiet (hRemoved : removed event = none) (hPushed : pushed job event.stmt = []) :
    linesOf job (log ++ [event]) = linesOf job log := by
  rw [linesOf_append, if_neg (by simp [hRemoved]), hPushed, List.append_nil]

/-- A job whose list has not expired has all the lines that were ever published on it. -/
theorem linesOf_eq_flatMap (h : ∀ event ∈ log, removed event ≠ some (.lines job)) :
    linesOf job log = log.flatMap fun event => pushed job event.stmt := by
  induction log using List.reverseRecOn with
  | nil => rfl
  | append_singleton log event ih =>
    have hLast := h event (List.mem_append_right _ (List.mem_singleton_self _))
    rw [linesOf_append, if_neg hLast, List.flatMap_append, List.flatMap_singleton]
    rw [ih fun other hMem => h other (List.mem_append_left _ hMem)]

/-- Redis holds the lines of every job, and a flag only if a call closed the job. -/
structure StoreRight (redis : Redis) (log : List Ran) : Prop where
  lines : ∀ job, redis.list (.lines job) = some (linesOf job log)
  done : ∀ job, ∃ flag, redis.text (.done job) = some flag ∧ (flag.isSome → ∃ event ∈ log, Closes job event)

variable {thread : Nat}

theorem received_append : received thread (log ++ [event]) =
    received thread log ++ (if event.thread = thread then (yielded event).toList else []) := by
  rw [received]
  by_cases hThread : event.thread = thread
  · rw [Machine.eventsOf_self log hThread, Machine.filterMap_concat, if_pos hThread]
    rfl
  · rw [Machine.eventsOf_other log hThread, if_neg hThread, List.append_nil]
    rfl

variable {N : Type} {c : Cursor N} {rest : List String}

/-- With the lines that it is being given, a subscriber has the lines before its index. -/
structure Upto (log : List Ran) (job : String) (thread : Nat) (c : Cursor N) (rest : List String) : Prop where
  owner : c.job = job
  bound : c.seen ≤ (linesOf job log).length
  all : received thread log ++ rest = (linesOf job log).take c.seen

def StreamAt (log : List Ran) (job : String) (thread : Nat) : Place N → Prop
  | .program _ => False
  | .reading c => Upto log job thread c []
  | .asking c => Upto log job thread c []
  | .draining c => Upto log job thread c [] ∧ ∃ event ∈ log, Closes job event
  | .yielding c item items => Upto log job thread c (item.toList ++ items)
  | .ended => ∃ before after, log = before ++ after ∧ (∃ event ∈ before, Closes job event) ∧
      received thread log = linesOf job before
  | .raised => False

theorem Upto.later (h : Upto log job thread c rest) (hReceived : received thread (log ++ [event]) = received thread log)
    (hRemoved : removed event ≠ some (.lines job)) : Upto (log ++ [event]) job thread c rest := by
  have hLines : linesOf job (log ++ [event]) = linesOf job log ++ pushed job event.stmt :=
    linesOf_append.trans (if_neg hRemoved)
  have hSeen := h.bound
  refine ⟨h.owner, ?_, ?_⟩
  · rw [hLines, List.length_append]
    omega
  · rw [hReceived, hLines, List.take_append_of_le_length hSeen]
    exact h.all

theorem StreamAt.later {p : Place N} (h : StreamAt log job thread p)
    (hReceived : received thread (log ++ [event]) = received thread log)
    (hRemoved : p ≠ .ended → removed event ≠ some (.lines job)) : StreamAt (log ++ [event]) job thread p := by
  cases p with
  | program p => exact h
  | reading c | asking c | yielding c item items => exact Upto.later h hReceived (hRemoved nofun)
  | draining c =>
    obtain ⟨hUpto, other, hMem, hCloses⟩ := h
    exact ⟨hUpto.later hReceived (hRemoved nofun), other, List.mem_append_left _ hMem, hCloses⟩
  | ended =>
    obtain ⟨before, after, hLog, hCloses, hAll⟩ := h
    exact ⟨before, after ++ [event], by rw [hLog, List.append_assoc], hCloses, hReceived.trans hAll⟩
  | raised => exact h

theorem Upto.drop {c' : Cursor N} (h : Upto log job thread c []) (hJob : c'.job = c.job)
    (hSeen : c'.seen = c.seen + ((linesOf job log).drop c.seen).length) :
    Upto log job thread c' ((linesOf job log).drop c.seen) := by
  have hAll : c'.seen = (linesOf job log).length := by
    have hLess := h.bound
    rw [hSeen, List.length_drop]
    omega
  have hReceived := h.all
  rw [List.append_nil] at hReceived
  refine ⟨hJob.trans h.owner, hAll.le, ?_⟩
  rw [hReceived, List.take_append_drop, hAll, List.take_length]

theorem StreamAt.afterTail (h : Upto log job thread c []) (hCloses : ∃ event ∈ log, Closes job event) :
    StreamAt log job thread (afterTail c (some ((linesOf job log).drop c.seen))) := by
  cases hTail : (linesOf job log).drop c.seen with
  | nil =>
    have hAll := h.all
    rw [List.append_nil, List.take_of_length_le (List.drop_eq_nil_iff.mp hTail)] at hAll
    exact ⟨log, [], (List.append_nil log).symm, hCloses, hAll⟩
  | cons line lines =>
    refine (congrArg (Upto log job thread _) hTail).mp (h.drop rfl ?_)
    rw [hTail]

section Batch

variable [Zero N]

theorem StreamAt.afterBatch (h : Upto log job thread c []) :
    StreamAt log job thread (afterBatch c (some ((linesOf job log).drop c.seen))) := by
  cases hBatch : (linesOf job log).drop c.seen with
  | nil => exact h
  | cons line lines =>
    refine (congrArg (Upto log job thread _) hBatch).mp (h.drop rfl ?_)
    rw [hBatch]

end Batch

variable [Zero N] [Add N] [LE N] [DecidableLE N] {settings : Settings N} {st fin : System N}

theorem StreamAt.slept (h : Upto log job thread c []) : StreamAt log job thread (slept settings.poll c) := by
  rw [RedisLogBus.slept]
  split
  · exact h
  · split
    · exact ⟨h.owner, h.bound, h.all⟩
    · exact ⟨h.owner, h.bound, h.all⟩

theorem StreamAt.afterFlag (h : Upto log job thread c []) {flag : Option String}
    (hFlag : flag.isSome → ∃ event ∈ log, Closes job event) :
    StreamAt log job thread (afterFlag settings.poll c (some flag)) := by
  cases flag with
  | none => exact StreamAt.slept h
  | some value => exact ⟨h, hFlag rfl⟩

theorem StreamAt.next {p : Place N} (h : StreamAt log job thread p) (hRight : StoreRight redis log) {s : Statement}
    {rest : Reply s → Place N} (hNext : next settings p = some ⟨s, rest⟩) :
    StreamAt (log ++ [⟨thread, (), s, (exec s () redis).2⟩]) job thread (rest (exec s () redis).2) := by
  have hQuiet {event : Ran} (hYielded : yielded event = none) : received thread (log ++ [event]) = received thread log := by
    rw [received_append, hYielded]
    simp
  have hLines (c : Cursor N) (hOwner : c.job = job) :
      (exec (.lrange c.job c.seen) () redis).2 = some ((linesOf job log).drop c.seen) := by
    rw [hOwner]
    exact congrArg (Option.map (List.drop c.seen)) (hRight.lines job)
  cases p with
  | program p => cases h
  | ended => cases hNext
  | raised => cases hNext
  | reading c =>
    cases hNext
    have hUpto : Upto log job thread c [] := h
    rw [hLines c hUpto.owner]
    exact (StreamAt.afterBatch hUpto).later (hQuiet rfl) (fun _ => nofun)
  | asking c =>
    cases hNext
    have hUpto : Upto log job thread c [] := h
    obtain ⟨flag, hText, hFlag⟩ := hRight.done job
    have hReply : (exec (.get c.job) () redis).2 = some flag := by
      rw [hUpto.owner]
      exact hText
    rw [hReply]
    exact (StreamAt.afterFlag hUpto hFlag).later (hQuiet rfl) (fun _ => nofun)
  | draining c =>
    cases hNext
    obtain ⟨hUpto, hCloses⟩ := h
    rw [hLines c hUpto.owner]
    exact (StreamAt.afterTail hUpto hCloses).later (hQuiet rfl) (fun _ => nofun)
  | yielding c item items =>
    cases hNext
    have hUpto : Upto log job thread c (item.toList ++ items) := h
    have hItem : received thread (log ++ [⟨thread, (), .yield item, ()⟩]) = received thread log ++ item.toList := by
      rw [received_append, if_pos rfl]
      rfl
    have hSame : linesOf job (log ++ [⟨thread, (), .yield item, ()⟩]) = linesOf job log := linesOf_quiet rfl rfl
    have hLater : Upto (log ++ [⟨thread, (), .yield item, ()⟩]) job thread c items := by
      refine ⟨hUpto.owner, ?_, ?_⟩
      · rw [hSame]
        exact hUpto.bound
      · rw [hSame, hItem, List.append_assoc]
        exact hUpto.all
    cases items with
    | nil => exact hLater
    | cons line lines => exact hLater

end Bajutsu.Serve.RedisLogBus
