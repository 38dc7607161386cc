import Bajutsu.Evidence.ControlChannel
import Bajutsu.Lib.History

/-!
# Commands and reports of one scenario

The commands that were handed out and those that wait are queued ones, in the order they were queued, so each is
handed out at most once. What waits, what may be reported, and what was reported goes back to an event after the
last clear.
-/

namespace Bajutsu.Evidence.Network

open History Interleaving PyText PyValue

abbrev Ran := Event Statement Reply ℚ

/-- The command that an event queued. -/
def queued : Ran → Option PendingCommand
  | ⟨_, _, .enqueueCommand capability enabled, id⟩ => some (.appCommand id capability enabled)
  | ⟨_, _, .enqueueStubTable mocks, id⟩ => some (.appStubTableCommand id mocks)
  | _ => none

/-- The commands that an event handed out. -/
def drained : Ran → List PendingCommand
  | ⟨_, _, .drainCommands, commands⟩ => commands
  | _ => []

/-- The report that an event stored. -/
def recorded : Ran → Option AppCommandReport
  | ⟨_, _, .recordReport report, stored⟩ =>
    let stored : Bool := stored
    if stored then some report else none
  | _ => none

/-- The report that an event gave to a caller that asked for it. -/
def answered : Ran → Option (Text × AppCommandReport)
  | ⟨_, _, .reportFor id, report⟩ =>
    let report : Option AppCommandReport := report
    report.map fun report => (id, report)
  | _ => none

/-- The nonce that an event claimed. -/
def claimed : Ran → Option Text
  | ⟨_, _, .claimNonce nonce, claimed⟩ =>
    let claimed : Bool := claimed
    if claimed then some nonce else none
  | _ => none

/-- The event does not start another scenario. -/
def Quiet (event : Ran) : Prop := event.stmt ≠ .clear

/-- The command was queued in this scenario. -/
def Queued (command : PendingCommand) (log : List Ran) : Prop :=
  ∃ event, queued event = some command ∧ Since (fun _ => True) event Quiet log

def Issued (id : Text) (log : List Ran) : Prop := ∃ command, Queued command log ∧ command.id = id

/-- The report is the last one stored for the id, in the scenario that queued its command. -/
def Reported (id : Text) (report : AppCommandReport) (log : List Ran) : Prop :=
  report.id = id ∧ ∃ event, recorded event = some report ∧
    Since (Issued id) event (fun event => Quiet event ∧ ∀ later, recorded event = some later → later.id ≠ id) log

variable {collector collector' : Collector} {log : List Ran} {event : Ran}

theorem Queued.later {command : PendingCommand} (h : Queued command log) (hQuiet : Quiet event) :
    Queued command (log ++ [event]) := by
  obtain ⟨first, hQueued, hSince⟩ := h
  exact ⟨first, hQueued, hSince.later hQuiet⟩

theorem Queued.here {command : PendingCommand} (h : queued event = some command) :
    Queued command (log ++ [event]) :=
  ⟨event, h, .here trivial⟩

theorem Issued.later {id : Text} (h : Issued id log) (hQuiet : Quiet event) : Issued id (log ++ [event]) := by
  obtain ⟨command, hQueued, hId⟩ := h
  exact ⟨command, hQueued.later hQuiet, hId⟩

/-! ## Commands -/

structure CommandsKept (collector : Collector) (log : List Ran) : Prop where
  ids : (log.filterMap queued).map PendingCommand.id =
    (List.range collector.issuedCount).map fun n => commandId (n + 1)
  order : (log.flatMap drained ++ collector.commands).Sublist (log.filterMap queued)
  pending : ∀ command ∈ collector.commands, Queued command log

theorem commandId_injective {m n : Nat} (h : commandId m = commandId n) : m = n := by
  rw [← natOf_decimal m, ← natOf_decimal n, (List.cons.inj h).2]

theorem CommandsKept.nodup_ids (h : CommandsKept collector log) :
    ((log.filterMap queued).map PendingCommand.id).Nodup := by
  rw [h.ids]
  refine List.Nodup.map (fun m n hEq => ?_) List.nodup_range
  have hSucc := commandId_injective hEq
  omega

theorem CommandsKept.skip (h : CommandsKept collector log) (hQueued : queued event = none)
    (hDrained : drained event = []) (hQuiet : Quiet event) (hCount : collector'.issuedCount = collector.issuedCount)
    (hCommands : collector'.commands = collector.commands) : CommandsKept collector' (log ++ [event]) where
  ids := by
    rw [List.filterMap_append, List.filterMap_cons_none hQueued, List.filterMap_nil, List.append_nil, h.ids, hCount]
  order := by
    rw [List.filterMap_append, List.filterMap_cons_none hQueued, List.filterMap_nil, List.append_nil,
      List.flatMap_append, List.flatMap_singleton, hDrained, List.append_nil, hCommands]
    exact h.order
  pending := by
    intro command hMem
    rw [hCommands] at hMem
    exact (h.pending command hMem).later hQuiet

theorem CommandsKept.enqueue (h : CommandsKept collector log) {command : Text → PendingCommand}
    (hQueued : queued event = some (command (commandId (collector.issuedCount + 1)))) (hDrained : drained event = [])
    (hQuiet : Quiet event) (hId : ∀ id, (command id).id = id) :
    CommandsKept (collector.enqueue command).1 (log ++ [event]) where
  ids := by
    rw [List.filterMap_append, List.filterMap_cons_some hQueued, List.filterMap_nil, List.map_append, h.ids]
    change _ = (List.range (collector.issuedCount + 1)).map _
    rw [List.range_succ, List.map_append, List.map_singleton, List.map_singleton, hId]
  order := by
    rw [List.filterMap_append, List.filterMap_cons_some hQueued, List.filterMap_nil, List.flatMap_append,
      List.flatMap_singleton, hDrained, List.append_nil]
    change (_ ++ (collector.commands ++ [_])).Sublist _
    rw [← List.append_assoc]
    exact h.order.append (List.Sublist.refl _)
  pending := by
    intro other hMem
    rcases List.mem_append.mp hMem with hMem | hMem
    · exact (h.pending other hMem).later hQuiet
    · rw [List.mem_singleton.mp hMem]
      exact Queued.here hQueued

theorem CommandsKept.empty (h : CommandsKept collector log) (hQueued : queued event = none)
    (hDrained : (drained event).Sublist collector.commands) (hCount : collector'.issuedCount = collector.issuedCount)
    (hCommands : collector'.commands = []) : CommandsKept collector' (log ++ [event]) where
  ids := by
    rw [List.filterMap_append, List.filterMap_cons_none hQueued, List.filterMap_nil, List.append_nil, h.ids, hCount]
  order := by
    rw [List.filterMap_append, List.filterMap_cons_none hQueued, List.filterMap_nil, List.append_nil,
      List.flatMap_append, List.flatMap_singleton, hCommands, List.append_nil]
    exact ((List.Sublist.refl _).append hDrained).trans h.order
  pending := by
    intro command hMem
    rw [hCommands] at hMem
    cases hMem

theorem CommandsKept.exec (h : CommandsKept collector log) (thread : Nat) (s : Statement) (now : ℚ) :
    CommandsKept (exec s now collector).1 (log ++ [⟨thread, now, s, (exec s now collector).2⟩]) := by
  cases s with
  | enqueueCommand capability enabled => exact h.enqueue rfl rfl (nofun) fun _ => rfl
  | enqueueStubTable mocks => exact h.enqueue rfl rfl (nofun) fun _ => rfl
  | drainCommands => exact h.empty rfl (List.Sublist.refl _) rfl rfl
  | clear => exact h.empty rfl (List.nil_sublist _) rfl rfl
  | recordReport report =>
    refine h.skip rfl rfl (nofun) ?_ ?_ <;> simp only [Network.exec] <;> split <;> rfl
  | claimNonce nonce =>
    refine h.skip rfl rfl (nofun) ?_ ?_ <;> simp only [Network.exec] <;> split <;> rfl
  | _ => exact h.skip rfl rfl (nofun) rfl rfl

/-! ## Reports -/

structure ReportsKept (collector : Collector) (log : List Ran) : Prop where
  issued : ∀ id ∈ collector.issued, Issued id log
  reported : ∀ id report, get collector.reports id = some report → Reported id report log

theorem Reported.later {id : Text} {report : AppCommandReport} (h : Reported id report log) (hQuiet : Quiet event)
    (hOther : ∀ later, recorded event = some later → later.id ≠ id) : Reported id report (log ++ [event]) := by
  obtain ⟨hId, first, hRecorded, hSince⟩ := h
  exact ⟨hId, first, hRecorded, hSince.later ⟨hQuiet, hOther⟩⟩

theorem ReportsKept.skip (h : ReportsKept collector log) (hRecorded : recorded event = none) (hQuiet : Quiet event)
    (hIssued : collector'.issued = collector.issued) (hReports : collector'.reports = collector.reports) :
    ReportsKept collector' (log ++ [event]) where
  issued := by
    intro id hMem
    rw [hIssued] at hMem
    exact (h.issued id hMem).later hQuiet
  reported := by
    intro id report hGet
    rw [hReports] at hGet
    refine (h.reported id report hGet).later hQuiet fun later hLater => ?_
    rw [hRecorded] at hLater
    cases hLater

theorem ReportsKept.enqueue (h : ReportsKept collector log) {command : Text → PendingCommand}
    (hQueued : queued event = some (command (commandId (collector.issuedCount + 1)))) (hRecorded : recorded event = none)
    (hQuiet : Quiet event) (hId : ∀ id, (command id).id = id) :
    ReportsKept (collector.enqueue command).1 (log ++ [event]) where
  issued := by
    intro id hMem
    rcases Finset.mem_insert.mp hMem with rfl | hMem
    · exact ⟨_, Queued.here hQueued, hId _⟩
    · exact (h.issued id hMem).later hQuiet
  reported := (h.skip hRecorded hQuiet rfl rfl).reported

theorem ReportsKept.record (h : ReportsKept collector log) {report : AppCommandReport}
    (hRecorded : recorded event = some report) (hQuiet : Quiet event) (hIssued : report.id ∈ collector.issued) :
    ReportsKept { collector with reports := set collector.reports report.id report } (log ++ [event]) where
  issued := fun id hMem => (h.issued id hMem).later hQuiet
  reported := by
    intro id later hGet
    rcases eq_or_ne id report.id with rfl | hNe
    · rw [get_set_self] at hGet
      obtain rfl := Option.some.inj hGet
      exact ⟨rfl, event, hRecorded, .here (h.issued _ hIssued)⟩
    · rw [get_set_ne _ _ hNe] at hGet
      refine (h.reported id later hGet).later hQuiet fun other hOther => ?_
      rw [hRecorded] at hOther
      obtain rfl := Option.some.inj hOther
      exact hNe.symm

theorem ReportsKept.exec (h : ReportsKept collector log) (thread : Nat) (s : Statement) (now : ℚ) :
    ReportsKept (exec s now collector).1 (log ++ [⟨thread, now, s, (exec s now collector).2⟩]) := by
  cases s with
  | enqueueCommand capability enabled => exact h.enqueue rfl rfl (nofun) fun _ => rfl
  | enqueueStubTable mocks => exact h.enqueue rfl rfl (nofun) fun _ => rfl
  | recordReport report =>
    by_cases hIssued : report.id ∈ collector.issued
    · have hExec : Network.exec (.recordReport report) now collector =
          ({ collector with reports := set collector.reports report.id report }, true) :=
        if_neg (not_not_intro hIssued)
      rw [hExec]
      exact h.record rfl (nofun) hIssued
    · have hExec : Network.exec (.recordReport report) now collector = (collector, false) := if_pos hIssued
      rw [hExec]
      exact h.skip rfl (nofun) rfl rfl
  | clear =>
    constructor
    · exact fun id hMem => absurd hMem (Finset.notMem_empty id)
    · exact fun id report hGet => nomatch hGet
  | claimNonce nonce =>
    refine h.skip rfl (nofun) ?_ ?_ <;> simp only [Network.exec] <;> split <;> rfl
  | _ => exact h.skip rfl (nofun) rfl rfl

/-! ## Nonces -/

structure NoncesKept (collector : Collector) (log : List Ran) : Prop where
  mem : ∀ nonce, nonce ∈ collector.nonces ↔ nonce ∈ log.filterMap claimed
  once : (log.filterMap claimed).Nodup

theorem NoncesKept.skip (h : NoncesKept collector log) (hClaimed : claimed event = none)
    (hNonces : collector'.nonces = collector.nonces) : NoncesKept collector' (log ++ [event]) := by
  have hLog : (log ++ [event]).filterMap claimed = log.filterMap claimed := by
    rw [List.filterMap_append, List.filterMap_cons_none hClaimed, List.filterMap_nil, List.append_nil]
  constructor
  · rw [hLog, hNonces]
    exact h.mem
  · rw [hLog]
    exact h.once

theorem NoncesKept.exec (h : NoncesKept collector log) (thread : Nat) (s : Statement) (now : ℚ) :
    NoncesKept (exec s now collector).1 (log ++ [⟨thread, now, s, (exec s now collector).2⟩]) := by
  cases s with
  | claimNonce nonce =>
    by_cases hSpent : nonce ∈ collector.nonces
    · have hExec : Network.exec (.claimNonce nonce) now collector = (collector, false) := if_pos hSpent
      rw [hExec]
      exact h.skip rfl rfl
    · have hExec : Network.exec (.claimNonce nonce) now collector =
          ({ collector with nonces := insert nonce collector.nonces }, true) := if_neg hSpent
      rw [hExec]
      have hLog (event : Ran) (hClaimed : claimed event = some nonce) :
          (log ++ [event]).filterMap claimed = log.filterMap claimed ++ [nonce] := by
        rw [List.filterMap_append, List.filterMap_cons_some hClaimed, List.filterMap_nil]
      constructor
      · intro other
        rw [hLog _ rfl, Finset.mem_insert, h.mem, List.mem_append, List.mem_singleton, or_comm]
      · rw [hLog _ rfl]
        refine h.once.append (List.nodup_singleton nonce) (List.disjoint_singleton.mpr ?_)
        rwa [← h.mem]
  | recordReport report =>
    refine h.skip rfl ?_
    simp only [Network.exec]
    split <;> rfl
  | _ => exact h.skip rfl rfl

/-! ## Runs -/

variable {library : Library} {receiver : Receiver} {st : System}

theorem channel_exec : (channel library receiver).exec = exec := rfl

theorem Reachable.kept (h : Reachable library receiver st) :
    CommandsKept st.shared st.history ∧ ReportsKept st.shared st.history ∧ NoncesKept st.shared st.history := by
  refine @Machine.Reaches.logged _ _ _ _ _ _ (channel library receiver)
    (fun collector log => CommandsKept collector log ∧ ReportsKept collector log ∧ NoncesKept collector log)
    ?_ _ _ h ?_
  · rintro thread s now collector log ⟨hCommands, hReports, hNonces⟩
    exact ⟨hCommands.exec thread s now, hReports.exec thread s now, hNonces.exec thread s now⟩
  · refine ⟨⟨rfl, List.Sublist.refl _, (fun _ hMem => nomatch hMem)⟩, ⟨?_, (fun _ _ hGet => nomatch hGet)⟩, ⟨?_, List.nodup_nil⟩⟩
    · exact fun id hMem => absurd hMem (Finset.notMem_empty id)
    · exact fun nonce => ⟨fun hMem => absurd hMem (Finset.notMem_empty nonce), fun hMem => nomatch hMem⟩

theorem Reachable.drained_queued (h : Reachable library receiver st) {before after : List Ran}
    (hHistory : st.history = before ++ event :: after) {command : PendingCommand} (hMem : command ∈ drained event) :
    Queued command before := by
  obtain ⟨mid, hMid, rfl, hReply⟩ := Machine.Reaches.at_event h hHistory
  obtain ⟨thread, now, s, reply⟩ := event
  cases s with
  | drainCommands =>
    obtain rfl : reply = mid.shared.commands := hReply
    exact (Reachable.kept hMid).1.pending command hMem
  | _ => cases hMem

theorem Reachable.answered_reported (h : Reachable library receiver st) {before after : List Ran}
    (hHistory : st.history = before ++ event :: after) {id : Text} {report : AppCommandReport}
    (hAnswered : answered event = some (id, report)) : Reported id report before := by
  obtain ⟨mid, hMid, rfl, hReply⟩ := Machine.Reaches.at_event h hHistory
  obtain ⟨thread, now, s, reply⟩ := event
  cases s with
  | reportFor asked =>
    change reply = get mid.shared.reports asked at hReply
    obtain ⟨found, hFound, hEq⟩ := Option.map_eq_some_iff.mp hAnswered
    obtain ⟨rfl, rfl⟩ := Prod.mk.inj hEq
    exact (Reachable.kept hMid).2.1.reported _ _ (hReply ▸ hFound)
  | _ => cases hAnswered

end Bajutsu.Evidence.Network
