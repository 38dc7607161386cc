import Bajutsu.Evidence.ControlChannelSafe

/-!
# Signed requests

A request whose signature is not the one its handler expects only asks whether its nonce is spent. One that
goes on has claimed its nonce, which one request can.
-/

namespace Bajutsu.Evidence.Network

open History Interleaving PyText PyValue

variable {library : Library} {receiver : Receiver} {request : Request} {st : System}

/-- The request carries a signature, not the token itself. -/
def Signed (request : Request) : Prop := bearer.isPrefixOf request.authorization = false

/-- The signature that the request carries is the one expected of its method, path, nonce and body. -/
def Matches (library : Library) (receiver : Receiver) (request : Request) (nonce : Text) : Prop :=
  ∃ length signature, contentLength request = some length ∧
    parseAuthorization request.authorization = some (nonce, signature) ∧
    expected library receiver request nonce length = signature

/-- A refusal, which no signature binds to a request. -/
def Refusal (result : Result) : Prop := ∃ status, result = .answered ⟨status, none, []⟩

/-- The handler has only asked for a nonce, and has not gone past its authentication. -/
def Asking (events : List Ran) (p : Program) : Prop :=
  (∀ event ∈ events, (∃ nonce, event.stmt = .nonceSpent nonce) ∨ ∃ nonce, event.stmt = .claimNonce nonce ∧ claimed event = none) ∧
    ∀ result, p = .ret result → Refusal result

def Accepted (events : List Ran) (nonce : Text) : Prop := ∃ event ∈ events, claimed event = some nonce

theorem drives_refuse {status : Nat} {events : List Ran} {p : Program}
    (h : Machine.Drives (channel library receiver) (refuse status) events p) : Asking events p := by
  obtain ⟨rfl, rfl⟩ := drives_ret h
  refine ⟨(fun _ hMem => nomatch hMem), fun result hResult => ?_⟩
  exact ⟨status, (Prog.ret.inj hResult).symm⟩

theorem Asking.cons {events : List Ran} {p : Program} {event : Ran} (h : Asking events p)
    (hEvent : (∃ nonce, event.stmt = .nonceSpent nonce) ∨ ∃ nonce, event.stmt = .claimNonce nonce ∧ claimed event = none) :
    Asking (event :: events) p := by
  refine ⟨fun other hMem => ?_, h.2⟩
  rcases List.mem_cons.mp hMem with rfl | hMem
  · exact hEvent
  · exact h.1 other hMem

theorem Asking.start {i : Statement} {rest : Reply i → Program} : Asking [] (.stmt i rest) :=
  ⟨(fun _ hMem => nomatch hMem), fun _ hResult => nomatch hResult⟩

theorem drives_authenticate {andThen : Authenticated → Program} (hRefused : ∀ status, andThen (.refused status) = refuse status)
    (hSigned : Signed request) {events : List Ran} {p : Program}
    (h : Machine.Drives (channel library receiver) (authenticate library receiver request andThen) events p) :
    Asking events p ∨ ∃ nonce, Matches library receiver request nonce ∧ Accepted events nonce := by
  rw [authenticate] at h
  split at h
  · rw [hRefused] at h
    exact .inl (drives_refuse h)
  · rename_i length hLength
    rw [hSigned, if_neg Bool.false_ne_true] at h
    split at h
    · rw [hRefused] at h
      exact .inl (drives_refuse h)
    · rename_i nonce signature hParse
      rcases drives_stmt_cases h with ⟨rfl, rfl⟩ | ⟨thread, now, (spent : Bool), later, rfl, hSpent⟩
      · exact .inl .start
      · split at hSpent
        · rw [hRefused] at hSpent
          exact .inl ((drives_refuse hSpent).cons (.inl ⟨nonce, rfl⟩))
        · split at hSpent
          · rw [hRefused] at hSpent
            exact .inl ((drives_refuse hSpent).cons (.inl ⟨nonce, rfl⟩))
          · rename_i hMatch
            have hMatches : Matches library receiver request nonce :=
              ⟨length, signature, hLength, hParse, not_not.mp (not_or.mp hMatch).2⟩
            rcases drives_stmt_cases hSpent with ⟨rfl, rfl⟩ | ⟨thread', now', (taken : Bool), later', rfl, hTaken⟩
            · exact .inl (Asking.start.cons (.inl ⟨nonce, rfl⟩))
            · cases taken with
              | false =>
                change Machine.Drives _ (andThen (.refused 409)) _ _ at hTaken
                rw [hRefused] at hTaken
                exact .inl (((drives_refuse hTaken).cons (.inr ⟨nonce, rfl, rfl⟩)).cons (.inl ⟨nonce, rfl⟩))
              | true => exact .inr ⟨nonce, hMatches, _, List.mem_cons_of_mem _ List.mem_cons_self, rfl⟩

theorem drives_handle (hSigned : Signed request) {events : List Ran} {p : Program}
    (h : Machine.Drives (channel library receiver) (handle library receiver request) events p) :
    Asking events p ∨ ∃ nonce, Matches library receiver request nonce ∧ Accepted events nonce := by
  rw [handle] at h
  split at h
  · exact drives_authenticate (fun _ => rfl) hSigned h
  · split at h
    · exact drives_authenticate (fun _ => rfl) hSigned h
    · exact .inl (drives_refuse h)

/-- The handler of a signed request that does not match never comes to a statement that writes. -/
theorem only_authenticate {andThen : Authenticated → Program} (hRefused : ∀ status, andThen (.refused status) = refuse status)
    (hSigned : Signed request) (hMismatch : ∀ nonce, ¬Matches library receiver request nonce) :
    (authenticate library receiver request andThen).Only fun s => ∃ nonce, s = .nonceSpent nonce := by
  rw [authenticate]
  split
  · rw [hRefused]
    trivial
  · rename_i length hLength
    rw [hSigned, if_neg Bool.false_ne_true]
    split
    · rw [hRefused]
      trivial
    · rename_i nonce signature hParse
      refine ⟨⟨nonce, rfl⟩, fun (spent : Bool) => ?_⟩
      have hNot : receiver.token = [] ∨ expected library receiver request nonce length ≠ signature :=
        .inr fun hMatch => hMismatch nonce ⟨length, signature, hLength, hParse, hMatch⟩
      rw [if_pos hNot, hRefused, hRefused]
      cases spent <;> trivial

theorem only_handle (hSigned : Signed request) (hMismatch : ∀ nonce, ¬Matches library receiver request nonce) :
    (handle library receiver request).Only fun s => ∃ nonce, s = .nonceSpent nonce := by
  rw [handle]
  split
  · exact only_authenticate (fun _ => rfl) hSigned hMismatch
  · split
    · exact only_authenticate (fun _ => rfl) hSigned hMismatch
    · trivial

/-! ## The channel -/

theorem Accepted.unique (h : Reachable library receiver st) {thread thread' : Nat} {nonce : Text}
    (hAccepted : Accepted (Machine.eventsOf thread st.history) nonce)
    (hAccepted' : Accepted (Machine.eventsOf thread' st.history) nonce) : thread = thread' := by
  obtain ⟨event, hMem, hClaimed⟩ := hAccepted
  obtain ⟨event', hMem', hClaimed'⟩ := hAccepted'
  obtain ⟨hMem, hThread⟩ := List.mem_filter.mp hMem
  obtain ⟨hMem', hThread'⟩ := List.mem_filter.mp hMem'
  have hOnce := List.pairwise_filterMap.mp (Reachable.kept h).2.2.once
  have hSymm : Std.Symm fun a b : Ran => ∀ x, claimed a = some x → ∀ y, claimed b = some y → x ≠ y :=
    ⟨fun a b hNe x hx y hy => (hNe y hy x hx).symm⟩
  rw [← of_decide_eq_true hThread, ← of_decide_eq_true hThread']
  by_contra hNe
  exact hOnce.forall hMem hMem' (fun hEq => hNe (congrArg Event.thread hEq)) nonce hClaimed nonce hClaimed' rfl

theorem Reachable.asking (h : Reachable library receiver st) {thread : Nat} {p : Program}
    (hThread : st.threads[thread]? = some (.request request, p)) (hSigned : Signed request) :
    Asking (Machine.eventsOf thread st.history) p ∨
      ∃ nonce, Matches library receiver request nonce ∧ Accepted (Machine.eventsOf thread st.history) nonce :=
  drives_handle hSigned ((Machine.Reaches.sound h (Machine.Sound.init _)).drives thread _ p hThread)

theorem Reachable.mismatch (h : Reachable library receiver st) {thread : Nat} {p : Program}
    (hThread : st.threads[thread]? = some (.request request, p)) (hSigned : Signed request)
    (hMismatch : ∀ nonce, ¬Matches library receiver request nonce) {now : ℚ} {fin : System}
    (hStep : (channel library receiver).step st (.run thread now) = some fin) : fin.shared = st.shared := by
  have hDrives := (Machine.Reaches.sound h (Machine.Sound.init _)).drives thread _ p hThread
  obtain ⟨-, hOnly⟩ := (only_handle hSigned hMismatch).drives hDrives
  rcases Machine.step_event hStep with ⟨call, hLabel, -⟩ | ⟨thread', now', call, p', i, rest, hLabel, hOther, hNext, rfl⟩
  · cases hLabel
  · cases hLabel
    obtain ⟨rfl, rfl⟩ := Prod.mk.inj (Option.some.inj (hThread.symm.trans hOther))
    cases p with
    | ret result => cases hNext
    | stmt i' rest' =>
      cases hNext
      obtain ⟨nonce, rfl⟩ := hOnly.1
      rfl

/-- Ids are not used again, a command is handed out at most once and in the scenario that queued it, a report is one
of that scenario, and of the requests with one nonce one is let in, which carries the signature expected of it. -/
theorem control_channel_safe (h : Reachable library receiver st) :
    ((st.history.filterMap queued).map PendingCommand.id).Nodup ∧
    ((st.history.flatMap drained).map PendingCommand.id).Nodup ∧
    (∀ before event after, st.history = before ++ event :: after →
      (∀ command ∈ drained event, Queued command before) ∧
      ∀ id report, answered event = some (id, report) → Reported id report before) ∧
    (∀ thread thread' nonce, Accepted (Machine.eventsOf thread st.history) nonce →
      Accepted (Machine.eventsOf thread' st.history) nonce → thread = thread') ∧
    ∀ thread request p, st.threads[thread]? = some (.request request, p) → Signed request →
      (Asking (Machine.eventsOf thread st.history) p ∨
        ∃ nonce, Matches library receiver request nonce ∧ Accepted (Machine.eventsOf thread st.history) nonce) ∧
      ((∀ nonce, ¬Matches library receiver request nonce) →
        ∀ now fin, (channel library receiver).step st (.run thread now) = some fin → fin.shared = st.shared) := by
  have hCommands := (Reachable.kept h).1
  refine ⟨hCommands.nodup_ids, ?_, ?_, fun _ _ _ => Accepted.unique h, ?_⟩
  · have hDrained := (List.sublist_append_left _ _).trans hCommands.order
    exact hCommands.nodup_ids.sublist (hDrained.map PendingCommand.id)
  · intro before event after hHistory
    exact ⟨fun command => Reachable.drained_queued h hHistory, fun id report => Reachable.answered_reported h hHistory⟩
  · intro thread request p hThread hSigned
    exact ⟨Reachable.asking h hThread hSigned, fun hMismatch now fin => Reachable.mismatch h hThread hSigned hMismatch⟩

/-- A command that is drained and reported, on a channel without requests. -/
def polled : List (Label ℚ Call) :=
  [.call (.enqueueCommand .touchVisualization true), .run 0 0, .call .drainCommands, .run 1 0,
    .call (.recordReport (.dict [("id", .str "c1"), ("applied", .bool true)])), .run 2 0,
    .call (.reportFor "c1".toList), .run 3 0]

def pollLibrary : Library where
  hexdigest := fun _ => []
  mac := fun _ canonical => canonical
  loads := fun _ => .jsonDecodeError
  dumps := fun _ => "[]".toUTF8.toList
  urlsplitPath := some
  validateExchange := some
  validateTransition := some
  validateReport
    | .dict [("id", .str id), ("applied", .bool applied)] => some ⟨id.toList, applied, []⟩
    | _ => none

def polledState : System := (channel pollLibrary ⟨[], true⟩).after (.init .init) polled

theorem control_channel_safe_polled :
    polledState.history.length = 4 ∧ ((polledState.history.flatMap drained).map PendingCommand.id).Nodup := by
  have hReachable : Reachable pollLibrary ⟨[], true⟩ polledState := Machine.Reaches.after (by decide +kernel)
  exact ⟨by decide +kernel, (control_channel_safe hReachable).2.1⟩

end Bajutsu.Evidence.Network
