import Bajutsu.Lib.TurnLoop
import Mathlib.Algebra.Order.Archimedean.Basic
import Mathlib.Tactic.Common

/-!
# The email wait

`_do_email` polls a mailbox until a message that was not there at the start matches, or the time is over. The mailbox and
the clock are sequences, one item a turn of the loop: a fetch returns any messages and ends at any time.

Which message of an inbox a step waits for, and the value it takes from its body, come first. Searching a pattern is
left to the caller: the patterns of a step are compiled when the scenario is read.
-/

namespace Bajutsu.Orchestrator.Mailbox

structure MailboxMessage where
  id : String
  sentTo : String
  subject : String
  body : String
  receivedAt : String
  deriving DecidableEq

structure EmailMatch where
  sentTo : Option String
  subject : Option String
  subjectMatches : Option String

structure EmailExtract where
  var : String
  bodyMatches : String

/-- A match of `re.search`: what it matched, and its groups, of which some may not have taken part. -/
structure Found where
  whole : String
  groups : List (Option String)

/-- `re.search` of a pattern in a text. -/
abbrev Search : Type := String → String → Option Found

variable (search : Search)

def matchMessage (msg : MailboxMessage) (want : EmailMatch) : Bool :=
  if want.sentTo.any fun t => msg.sentTo != t then false
  else if want.subject.any fun t => msg.subject != t then false
  else !want.subjectMatches.any fun pattern => (search pattern msg.subject).isNone

def extractValue (body : String) (extract : EmailExtract) : Option String :=
  match search extract.bodyMatches body with
  | none => none
  | some found =>
    match found.groups with
    | [] => some found.whole
    | group :: _ => group

/-- The order of the keys `(received_at, id)`. -/
def Older (a b : MailboxMessage) : Prop := a.receivedAt < b.receivedAt ∨ a.receivedAt = b.receivedAt ∧ a.id < b.id

instance : DecidableRel Older := fun _ _ => inferInstanceAs (Decidable (_ ∨ _))

/-- `max`, which keeps the first of two equal keys. -/
def newest (first : MailboxMessage) (rest : List MailboxMessage) : MailboxMessage :=
  rest.foldl (fun best m => if Older best m then m else best) first

def eligible (messages : List MailboxMessage) (want : EmailMatch) (baselineIds : List String) : List MailboxMessage :=
  messages.filter fun m => !baselineIds.contains m.id && matchMessage search m want

def select (messages : List MailboxMessage) (want : EmailMatch) (baselineIds : List String) : Option MailboxMessage :=
  match eligible search messages want baselineIds with
  | [] => none
  | first :: rest => some (newest first rest)

theorem newest_mem (first : MailboxMessage) (rest : List MailboxMessage) : newest first rest ∈ first :: rest := by
  induction rest generalizing first with
  | nil => exact List.mem_cons_self
  | cons m rest ih =>
    have h := ih (if Older first m then m else first)
    rw [newest, List.foldl_cons]
    rcases List.mem_cons.mp h with h | h
    · rw [newest] at h
      rw [h]
      split <;> simp
    · exact List.mem_cons_of_mem first (List.mem_cons_of_mem m h)

variable {search}

theorem select_some {messages : List MailboxMessage} {want : EmailMatch} {baselineIds : List String}
    {picked : MailboxMessage} (h : select search messages want baselineIds = some picked) :
    picked ∈ messages ∧ picked.id ∉ baselineIds ∧ matchMessage search picked want = true := by
  rw [select] at h
  split at h
  · cases h
  · rename_i first rest hEligible
    obtain rfl := Option.some.inj h
    have hMem := newest_mem first rest
    rw [← hEligible, eligible, List.mem_filter, Bool.and_eq_true, Bool.not_eq_true', List.contains_eq_mem,
      decide_eq_false_iff_not] at hMem
    exact hMem

end Bajutsu.Orchestrator.Mailbox

namespace Bajutsu.Orchestrator.EmailWait
open Mailbox TurnLoop

/-- `_EMAIL_POLL` -/
def emailPoll : ℚ := 1

structure Email where
  want : EmailMatch
  extract : EmailExtract
  timeout : ℚ
  timeout_pos : 0 < timeout

/-- What the mailbox and the clock answer to a wait with this timeout. The reading `opening k` is the one turn `k` begins
with, and `closing k` the one after its fetch; a sleep lasts at least as long as it was asked to. -/
structure World (timeout : ℚ) where
  start : ℚ
  baseline : List MailboxMessage
  opening : Nat → ℚ
  fetched : Nat → List MailboxMessage
  cancelled : Nat → Bool
  closing : Nat → ℚ
  start_le : start ≤ opening 0
  opening_le : ∀ k, opening k ≤ closing k
  slept : ∀ k, closing k ≤ start + timeout →
    closing k + min emailPoll (start + timeout - closing k) ≤ opening (k + 1)

inductive Raised where
  | runCancelled
  | valueError
  deriving DecidableEq

/-- The clock reading a fetch was started after, and the time it was given. -/
structure Fetch where
  reading : ℚ
  given : ℚ

abbrev Bindings : Type := String → Option String

/-- What a wait has done, whatever it ends with. -/
structure Log where
  bindings : Option Bindings
  fetches : List Fetch := []
  accepted : Option MailboxMessage := none

structure Waiting where
  turn : Nat
  log : Log

/-- A result with its reason, or what was raised. -/
abbrev Ended : Type := Except (Raised × Log) ((Bool × String) × Log)

def Ended.log : Ended → Log
  | .error (_, log) => log
  | .ok (_, log) => log

/-- `time.sleep` -/
def sleep (seconds : ℚ) : Except Raised Unit := if seconds < 0 then .error .valueError else .ok ()

/-- `re.search` and the format `:g`. -/
structure Builtins where
  search : Search
  formatG : ℚ → String

def noMailbox : String := "email: no mailbox configured (set targets.<name>.mailbox)"

def noMatching (builtins : Builtins) (timeout : ℚ) : String :=
  "email: no matching message within " ++ builtins.formatG timeout ++ "s"

def noExtract : String := "email: matched a message but extract regex did not match its body"

section Loop

variable (builtins : Builtins) (email : Email) (world : World email.timeout)

def deadline : ℚ := world.start + email.timeout

def picked (k : Nat) : Option MailboxMessage :=
  select builtins.search (world.fetched k) email.want (world.baseline.map (·.id))

/-- One turn of the loop. -/
def poll (w : Waiting) : Except (Raised × Log) ((Bool × String) × Log ⊕ Waiting) :=
  let remaining := deadline email world - world.opening w.turn
  if remaining ≤ 0 then .ok (.inl ((false, noMatching builtins email.timeout), w.log))
  else
    let log := { w.log with fetches := w.log.fetches ++ [⟨world.opening w.turn, remaining⟩] }
    match picked builtins email world w.turn with
    | some message =>
      match extractValue builtins.search message.body email.extract with
      | none => .ok (.inl ((false, noExtract), { log with accepted := some message }))
      | some value =>
        .ok (.inl ((true, ""), { log with
          accepted := some message
          bindings := log.bindings.map fun b => Function.update b ("vars." ++ email.extract.var) (some value) }))
    | none =>
      if world.cancelled w.turn then .error (.runCancelled, log)
      else
        match sleep (min emailPoll (deadline email world - world.closing w.turn)) with
        | .error e => .error (e, log)
        | .ok () => .ok (.inr ⟨w.turn + 1, log⟩)

/-- The first fetch, which only tells what was there, is given the whole timeout. -/
def opened (bindings : Option Bindings) : Waiting := ⟨0, { bindings, fetches := [⟨world.start, email.timeout⟩] }⟩

end Loop

/-- `_do_email`, for at most `fuel` turns of its loop. -/
def doEmail (builtins : Builtins) (email : Email) (mailbox : Option (World email.timeout)) (bindings : Option Bindings)
    (fuel : Nat) : Option Ended :=
  match mailbox with
  | none => some (.ok ((false, noMailbox), { bindings }))
  | some world =>
    if bindings.isNone then some (.ok ((true, ""), { bindings }))
    else loop (poll builtins email world) fuel (opened email world bindings)

/-- What a wait promises of how it ended. -/
structure Bounded (builtins : Builtins) (email : Email) (mailbox : Option (World email.timeout))
    (bindings : Option Bindings) (out : Ended) : Prop where
  ends : (∃ log, out = .ok ((true, ""), log)) ∨
    (∃ reason ∈ [noMailbox, noMatching builtins email.timeout, noExtract], ∃ log, out = .ok ((false, reason), log)) ∨
    ∃ log, out = .error (.runCancelled, log)
  arrived : ∀ world ∈ mailbox, ∀ message ∈ out.log.accepted, message.id ∉ world.baseline.map (·.id)
  inTime : ∀ world ∈ mailbox, ∀ fetch ∈ out.log.fetches, fetch.reading < deadline email world ∧ 0 < fetch.given
  written : out.log.bindings ≠ bindings → ∃ log, out = .ok ((true, ""), log)

/-- `_do_email` returns, and keeps its promises. -/
def WaitsBounded (builtins : Builtins) (email : Email) (mailbox : Option (World email.timeout))
    (bindings : Option Bindings) : Prop :=
  ∃ enough out, (∀ fuel, enough ≤ fuel → doEmail builtins email mailbox bindings fuel = some out) ∧
    Bounded builtins email mailbox bindings out

/-- Turn `k` fetches, finds nothing eligible, and the run is not cancelled. -/
structure Unanswered (builtins : Builtins) (email : Email) (world : World email.timeout) (k : Nat) : Prop where
  opening : world.opening k < deadline email world
  picked : picked builtins email world k = none
  cancelled : world.cancelled k = false

/-- No unanswered turn, in a row of them from the start, ends past the deadline. -/
def OnTime (builtins : Builtins) (email : Email) (mailbox : Option (World email.timeout)) (bindings : Option Bindings) :
    Prop :=
  ∀ world ∈ mailbox, bindings.isSome → ∀ k, (∀ j ≤ k, Unanswered builtins email world j) →
    world.closing k ≤ deadline email world

section Turns

variable {builtins : Builtins} {email : Email} {world : World email.timeout} {bindings : Option Bindings} {w : Waiting}

/-- What every turn keeps. -/
structure Polled (builtins : Builtins) (email : Email) (world : World email.timeout) (bindings : Option Bindings)
    (w : Waiting) : Prop where
  unanswered : ∀ j < w.turn, Unanswered builtins email world j
  bindings : w.log.bindings = bindings
  accepted : w.log.accepted = none
  fetches : ∀ fetch ∈ w.log.fetches, fetch.reading < deadline email world ∧ 0 < fetch.given

def Log.fetching (log : Log) (fetch : Fetch) : Log := { log with fetches := log.fetches ++ [fetch] }

theorem fetches_fetching {P : Fetch → Prop} {log : Log} {fetch : Fetch} (h : ∀ f ∈ log.fetches, P f) (hFetch : P fetch) :
    ∀ f ∈ (log.fetching fetch).fetches, P f := by
  intro f hf
  rcases List.mem_append.mp hf with hf | hf
  · exact h f hf
  · rw [List.mem_singleton.mp hf]
    exact hFetch

/-- What turn `k` has done once its fetch is started. -/
def fetching (email : Email) (world : World email.timeout) (w : Waiting) : Log :=
  w.log.fetching ⟨world.opening w.turn, deadline email world - world.opening w.turn⟩

/-- The ways a turn can end. -/
inductive Turned (builtins : Builtins) (email : Email) (world : World email.timeout) (w : Waiting) :
    Except (Raised × Log) ((Bool × String) × Log ⊕ Waiting) → Prop where
  | late (hLate : deadline email world ≤ world.opening w.turn) :
    Turned builtins email world w (.ok (.inl ((false, noMatching builtins email.timeout), w.log)))
  | unread {message : MailboxMessage} (hOpening : world.opening w.turn < deadline email world)
    (hPicked : picked builtins email world w.turn = some message) :
    Turned builtins email world w
      (.ok (.inl ((false, noExtract), { fetching email world w with accepted := some message })))
  | found {message : MailboxMessage} {bindings : Option Bindings}
    (hOpening : world.opening w.turn < deadline email world)
    (hPicked : picked builtins email world w.turn = some message) :
    Turned builtins email world w
      (.ok (.inl ((true, ""), { fetching email world w with accepted := some message, bindings })))
  | cancelled (hOpening : world.opening w.turn < deadline email world) (hCancelled : world.cancelled w.turn = true) :
    Turned builtins email world w (.error (.runCancelled, fetching email world w))
  | overran (hUnanswered : Unanswered builtins email world w.turn)
    (hClosing : deadline email world < world.closing w.turn) :
    Turned builtins email world w (.error (.valueError, fetching email world w))
  | slept (hUnanswered : Unanswered builtins email world w.turn)
    (hClosing : world.closing w.turn ≤ deadline email world) :
    Turned builtins email world w (.ok (.inr ⟨w.turn + 1, fetching email world w⟩))

theorem sleep_min {d : ℚ} : sleep (min emailPoll d) = if d < 0 then .error .valueError else .ok () := by
  rw [sleep]
  apply if_congr _ rfl rfl
  rw [min_lt_iff]
  constructor
  · rintro (h | h)
    · exact absurd h (by decide +kernel)
    · exact h
  · exact .inr

theorem poll_turned (builtins : Builtins) (email : Email) (world : World email.timeout) (w : Waiting) :
    Turned builtins email world w (poll builtins email world w) := by
  rw [poll]
  dsimp only
  split
  · rename_i hOver
    exact .late (by linarith)
  · rename_i hOver
    have hOpening : world.opening w.turn < deadline email world := by linarith
    split
    · rename_i message hPicked
      split
      · exact .unread hOpening hPicked
      · exact .found hOpening hPicked
    · rename_i hPicked
      split
      · rename_i hCancelled
        exact .cancelled hOpening hCancelled
      · rename_i hCancelled
        have hUnanswered : Unanswered builtins email world w.turn :=
          ⟨hOpening, hPicked, Bool.not_eq_true _ ▸ hCancelled⟩
        rw [sleep_min]
        by_cases hClosing : world.closing w.turn ≤ deadline email world
        · rw [if_neg (by linarith)]
          exact .slept hUnanswered hClosing
        · rw [if_pos (by linarith)]
          exact .overran hUnanswered (by linarith)

theorem poll_unanswered (h : Unanswered builtins email world w.turn) :
    poll builtins email world w =
      if world.closing w.turn ≤ deadline email world then .ok (.inr ⟨w.turn + 1, fetching email world w⟩)
      else .error (.valueError, fetching email world w) := by
  have hTurned := poll_turned builtins email world w
  generalize poll builtins email world w = out at hTurned
  cases hTurned with
  | late hLate => exact absurd h.opening (by linarith)
  | unread _ hPicked => rw [h.picked] at hPicked; cases hPicked
  | found _ hPicked => rw [h.picked] at hPicked; cases hPicked
  | cancelled _ hCancelled => rw [h.cancelled] at hCancelled; cases hCancelled
  | overran _ hClosing => rw [if_neg (by linarith)]
  | slept _ hClosing => rw [if_pos hClosing]

theorem Polled.fetching (h : Polled builtins email world bindings w)
    (hOpening : world.opening w.turn < deadline email world) :
    ∀ fetch ∈ (fetching email world w).fetches, fetch.reading < deadline email world ∧ 0 < fetch.given :=
  fetches_fetching h.fetches ⟨hOpening, by linarith⟩

theorem Polled.next {next : Waiting} (h : Polled builtins email world bindings w)
    (hTurn : poll builtins email world w = .ok (.inr next)) : Polled builtins email world bindings next := by
  have hTurned := poll_turned builtins email world w
  rw [hTurn] at hTurned
  cases hTurned with
  | slept hUnanswered hClosing =>
    refine ⟨?_, h.bindings, h.accepted, h.fetching hUnanswered.opening⟩
    intro j hj
    rcases Nat.lt_succ_iff_lt_or_eq.mp hj with hj | rfl
    · exact h.unanswered j hj
    · exact hUnanswered

theorem polled_opened (builtins : Builtins) (world : World email.timeout) (bindings : Option Bindings) :
    Polled builtins email world bindings (opened email world bindings) := by
  refine ⟨fun j hj => absurd hj (Nat.not_lt_zero j), rfl, rfl, ?_⟩
  intro fetch hFetch
  obtain rfl := List.mem_singleton.mp hFetch
  have := email.timeout_pos
  exact ⟨by rw [deadline]; linarith, this⟩

theorem Polled.bounded (h : Polled builtins email world bindings w) {out : Ended}
    (hOut : poll builtins email world w = out.map Sum.inl)
    (hOnTime : Unanswered builtins email world w.turn → world.closing w.turn ≤ deadline email world) :
    Bounded builtins email (some world) bindings out := by
  have hTurned := poll_turned builtins email world w
  rw [hOut] at hTurned
  have hArrived : ∀ message, picked builtins email world w.turn = some message →
      ∀ world' ∈ some world, ∀ m ∈ some message, m.id ∉ world'.baseline.map (·.id) := by
    rintro message hPicked _ ⟨⟩ _ ⟨⟩
    exact (select_some hPicked).2.1
  have hNone : ∀ world' ∈ some world, ∀ m ∈ w.log.accepted, m.id ∉ world'.baseline.map (·.id) := by
    intro _ _ m hm
    rw [h.accepted] at hm
    cases hm
  obtain ⟨raised, log⟩ | ⟨result, log⟩ := out
  · change Turned builtins email world w (.error (raised, log)) at hTurned
    cases hTurned with
    | cancelled hOpening =>
      refine ⟨.inr (.inr ⟨_, rfl⟩), hNone, ?_, fun hChanged => absurd h.bindings hChanged⟩
      rintro _ ⟨⟩
      exact h.fetching hOpening
    | overran hUnanswered hClosing => exact absurd (hOnTime hUnanswered) (by linarith)
  · change Turned builtins email world w (.ok (.inl (result, log))) at hTurned
    cases hTurned with
    | late _ =>
      refine ⟨.inr (.inl ⟨_, by simp, _, rfl⟩), hNone, ?_, fun hChanged => absurd h.bindings hChanged⟩
      rintro _ ⟨⟩
      exact h.fetches
    | unread hOpening hPicked =>
      refine ⟨.inr (.inl ⟨_, by simp, _, rfl⟩), hArrived _ hPicked, ?_, fun hChanged => absurd h.bindings hChanged⟩
      rintro _ ⟨⟩
      exact h.fetching hOpening
    | found hOpening hPicked =>
      refine ⟨.inl ⟨_, rfl⟩, hArrived _ hPicked, ?_, fun _ => ⟨_, rfl⟩⟩
      rintro _ ⟨⟩
      exact h.fetching hOpening

/-- The state the loop is in after `k` unanswered turns. -/
def waited (email : Email) (world : World email.timeout) (bindings : Option Bindings) : Nat → Waiting
  | 0 => opened email world bindings
  | k + 1 => ⟨k + 1, fetching email world (waited email world bindings k)⟩

theorem waited_turn (world : World email.timeout) (k : Nat) : (waited email world bindings k).turn = k := by
  cases k with
  | zero => rfl
  | succ k => rfl

theorem poll_waited {k : Nat} (hUnanswered : Unanswered builtins email world k)
    (hClosing : world.closing k ≤ deadline email world) :
    poll builtins email world (waited email world bindings k) = .ok (.inr (waited email world bindings (k + 1))) := by
  rw [poll_unanswered (by rwa [waited_turn]), waited_turn, if_pos hClosing]
  rfl

/-- Time as the loop sees it: past the deadline it stands still, a poll further on. -/
def clocked (email : Email) (world : World email.timeout) (w : Waiting) : ℚ :=
  if deadline email world ≤ world.opening w.turn then deadline email world + emailPoll else world.opening w.turn

theorem poll_clocked {next : Waiting} (hTurn : poll builtins email world w = .ok (.inr next)) :
    clocked email world w < deadline email world ∧ clocked email world w + emailPoll ≤ clocked email world next := by
  have hTurned := poll_turned builtins email world w
  rw [hTurn] at hTurned
  cases hTurned with
  | slept hUnanswered hClosing =>
    have hOpening := hUnanswered.opening
    have hSlept := world.slept w.turn hClosing
    have hLe := world.opening_le w.turn
    rw [clocked, if_neg (by linarith), clocked]
    refine ⟨hOpening, ?_⟩
    dsimp only
    split
    · linarith
    · rename_i hNext
      rw [deadline] at hNext hClosing
      rcases min_choice emailPoll (world.start + email.timeout - world.closing w.turn) with hMin | hMin
      · rw [hMin] at hSlept
        linarith
      · rw [hMin] at hSlept
        exact absurd (by linarith) hNext

theorem loop_ends (builtins : Builtins) (world : World email.timeout) (w : Waiting) :
    ∃ enough out, loop (poll builtins email world) enough w = some out := by
  obtain ⟨n, hn⟩ := exists_nat_ge (deadline email world - clocked email world w)
  have hSome := @loop_isSome _ _ _ (poll builtins email world) (clocked email world) (deadline email world) emailPoll
    (fun _ _ => poll_clocked) n (n + 1) w (by rw [emailPoll, mul_one]; linarith) (by omega)
  obtain ⟨out, hOut⟩ := Option.isSome_iff_exists.mp hSome
  exact ⟨n + 1, out, hOut⟩

end Turns

variable {builtins : Builtins} {email : Email} {mailbox : Option (World email.timeout)} {bindings : Option Bindings}

theorem waitsBounded_of_onTime (h : OnTime builtins email mailbox bindings) :
    WaitsBounded builtins email mailbox bindings := by
  cases mailbox with
  | none =>
    refine ⟨0, .ok ((false, noMailbox), { bindings }), fun _ _ => rfl, ?_⟩
    exact ⟨.inr (.inl ⟨_, by simp, _, rfl⟩), fun _ h => (nomatch h), fun _ h => (nomatch h),
      fun hChanged => absurd rfl hChanged⟩
  | some world =>
    cases bindings with
    | none =>
      refine ⟨0, .ok ((true, ""), { bindings := none }), fun _ _ => rfl, ?_⟩
      exact ⟨.inl ⟨_, rfl⟩, fun _ _ _ hm => (nomatch hm), fun _ _ _ hf => absurd hf List.not_mem_nil,
        fun _ => ⟨_, rfl⟩⟩
    | some b =>
      obtain ⟨enough, out, hOut⟩ := loop_ends builtins world (opened email world (some b))
      refine ⟨enough, out, fun _ hLe => loop_of_le hLe hOut, ?_⟩
      obtain ⟨last, hPolled, hTurn⟩ := loop_last (fun _ _ => Polled.next) (polled_opened builtins world (some b)) hOut
      apply hPolled.bounded hTurn
      intro hUnanswered
      apply h world rfl rfl last.turn
      intro j hj
      rcases Nat.eq_or_lt_of_le hj with rfl | hLt
      · exact hUnanswered
      · exact hPolled.unanswered j hLt

theorem onTime_of_waitsBounded (h : WaitsBounded builtins email mailbox bindings) :
    OnTime builtins email mailbox bindings := by
  obtain ⟨enough, out, hRun, hBounded⟩ := h
  rintro world ⟨⟩ hBindings k hUnanswered
  by_contra hLate
  have hBad : ∃ k, (∀ j ≤ k, Unanswered builtins email world j) ∧ ¬world.closing k ≤ deadline email world :=
    ⟨k, hUnanswered, hLate⟩
  -- the first overrun is the one the loop reaches
  classical
  obtain ⟨hAll, hOver⟩ := Nat.find_spec hBad
  have hReach := @loop_reaches _ _ _ (poll builtins email world) (waited email world bindings) (Nat.find hBad)
    (fun j hj => poll_waited (hAll j (by omega)) (by
      by_contra hEarlier
      exact Nat.find_min hBad hj ⟨fun i hi => hAll i (by omega), hEarlier⟩)) (enough + 1)
  have hOut := hRun (enough + 1 + Nat.find hBad) (by omega)
  rw [doEmail, if_neg (by rw [Option.isNone_iff_eq_none, ← Option.not_isSome_iff_eq_none, not_not]; exact hBindings)] at hOut
  rw [show opened email world bindings = waited email world bindings 0 from rfl, hReach, loop,
    poll_unanswered (by rw [waited_turn]; exact hAll _ (Nat.le_refl _)), waited_turn, if_neg hOver] at hOut
  obtain rfl := Option.some.inj hOut
  rcases hBounded.ends with ⟨_, hEnds⟩ | ⟨_, _, _, hEnds⟩ | ⟨_, hEnds⟩
  · cases hEnds
  · cases hEnds
  · cases hEnds

theorem do_email_bounded_iff (builtins : Builtins) (email : Email) (mailbox : Option (World email.timeout))
    (bindings : Option Bindings) : WaitsBounded builtins email mailbox bindings ↔ OnTime builtins email mailbox bindings :=
  ⟨onTime_of_waitsBounded, waitsBounded_of_onTime⟩

/-- Ten seconds for a message to one address. -/
def otp : Email := ⟨⟨some "user@example.com", none, none⟩, ⟨"otp", "[0-9]+"⟩, 10, by decide +kernel⟩

/-- The first fetch of the loop finds nothing and comes back a second late. -/
def slowFetch : World otp.timeout where
  start := 0
  baseline := []
  opening k := if k = 0 then 1 else 11
  fetched _ := []
  cancelled _ := false
  closing _ := 11
  start_le := by decide +kernel
  opening_le := by
    intro k
    split
    · decide +kernel
    · exact le_refl _
  slept := by
    intro _ h
    exact absurd h (by decide +kernel)

theorem do_email_overrun : ¬∀ builtins email mailbox bindings, WaitsBounded builtins email mailbox bindings := by
  intro h
  have hOnTime := onTime_of_waitsBounded
    (h ⟨fun _ _ => none, fun _ => "10"⟩ otp (some slowFetch) (some fun _ => none))
  have hClosing : slowFetch.closing 0 ≤ deadline otp slowFetch := by
    apply hOnTime slowFetch rfl rfl 0
    intro j hj
    obtain rfl := Nat.le_zero.mp hj
    exact ⟨by decide +kernel, rfl, rfl⟩
  exact absurd hClosing (by decide +kernel)

end Bajutsu.Orchestrator.EmailWait
