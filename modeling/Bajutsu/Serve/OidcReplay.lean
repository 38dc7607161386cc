import Bajutsu.Serve.OidcExchange

/-!
# Tokens are spent once

The table refuses a token that was spent as long as its row is there, and a sweep removes the row only when
the token is past its expiry by more than the skew. An exchange that comes later than that mints nothing.
-/

namespace Bajutsu.Serve.Oidc

open History Interleaving

variable {settings : Settings}

/-- A spent row is in the table, or it is past its expiry by more than the skew, and so is whatever was
read since it was spent again. -/
structure Kept (st : System) : Prop where
  row : ∀ event ∈ st.history, ∀ row, spends event = some row →
    Table.find OidcJti.id st.shared.rows row.id = some row ∨ row.expiresAt + replaySkew < st.shared.now
  late : ∀ before event after row, st.history = before ++ event :: after → spends event = some row →
    (∃ earlier ∈ before, spends earlier = some row) → row.expiresAt + replaySkew < st.shared.now ∧
      ∀ event ∈ after, ∀ now, reads event = some now → row.expiresAt + replaySkew < now

theorem spends_exec {thread : Nat} {s : Statement} {elapsed : Nat} {shared : Shared} {row : OidcJti}
    (h : spends ⟨thread, elapsed, s, (exec s elapsed shared).2⟩ = some row) :
    s = .insert row ∧ Table.find OidcJti.id shared.rows row.id = none ∧
      Table.find OidcJti.id (exec s elapsed shared).1.rows row.id = some row := by
  cases s with
  | clock => cases h
  | sweep before => cases h
  | insert row' =>
    change (if (Table.insert OidcJti.id row' shared.rows).2 then some row' else none) = some row at h
    rcases @Table.insert_cases _ _ _ OidcJti.id row' shared.rows with ⟨hInsert, -⟩ | ⟨hInsert, hFree⟩
    · rw [hInsert] at h
      cases h
    · rw [hInsert] at h
      obtain rfl := Option.some.inj h
      refine ⟨rfl, hFree, ?_⟩
      simp only [exec]
      rw [hInsert, Table.find_append_single, hFree]
      simp

theorem find_exec {s : Statement} {elapsed : Nat} {shared : Shared} {row : OidcJti}
    (h : Table.find OidcJti.id shared.rows row.id = some row) :
    Table.find OidcJti.id (exec s elapsed shared).1.rows row.id = some row ∨
      ∃ before, s = .sweep before ∧ row.expiresAt < before := by
  cases s with
  | clock => exact .inl h
  | sweep before =>
    by_cases hOld : row.expiresAt < before
    · exact .inr ⟨before, rfl, hOld⟩
    · exact .inl (Table.find_delete h (by simpa using hOld))
  | insert row' =>
    refine .inl ?_
    simp only [exec]
    rcases @Table.insert_cases _ _ _ OidcJti.id row' shared.rows with ⟨hInsert, -⟩ | ⟨hInsert, -⟩
    · rw [hInsert]
      exact h
    · rw [hInsert, Table.find_append_single, h]
      rfl

theorem sweep_le {start : Int} {st : System} (h : (exchanges settings).Reaches (.init ⟨start, []⟩) st)
    {thread : Nat} {token : Token} {before : Int} {rest : Reply (.sweep before) → Program}
    (hThread : st.threads[thread]? = some (token, .stmt (.sweep before) rest)) :
    before + replaySkew ≤ st.shared.now := by
  obtain ⟨event, hMem, now, hReads, rfl⟩ :=
    (drives_exchange (Reaches.drives h hThread)).1 before rest rfl
  have hNow := reads_le h (List.mem_of_mem_filter hMem) hReads
  omega

theorem Kept.step {start : Int} {st fin : System}
    (hReaches : (exchanges settings).Reaches (.init ⟨start, []⟩) st) (h : Kept st) {label : Label Nat Token}
    (hStep : (exchanges settings).step st label = some fin) : Kept fin := by
  rcases Machine.step_event hStep with ⟨token, -, rfl⟩ | ⟨thread, elapsed, token, p, s, rest, -, hThread, hNext, rfl⟩
  · exact ⟨h.row, h.late⟩
  · rw [exchanges_exec]
    have hNow := exec_now s elapsed st.shared
    constructor
    · intro event hMem row hSpends
      rcases List.mem_append.mp hMem with hMem | hMem
      · rcases h.row event hMem row hSpends with hFind | hLate
        · rcases @find_exec s elapsed _ _ hFind with hFind | ⟨before, rfl, hOld⟩
          · exact .inl hFind
          · right
            cases p with
            | ret result => cases hNext
            | stmt s' rest' =>
              cases hNext
              have hBefore := sweep_le hReaches hThread
              dsimp only
              omega
        · right
          dsimp only
          omega
      · rw [List.mem_singleton.mp hMem] at hSpends
        exact .inl (spends_exec hSpends).2.2
    · intro before event after row hHistory hSpends hEarlier
      dsimp only at hHistory ⊢
      rcases List.eq_nil_or_concat after with rfl | ⟨after, last, rfl⟩
      · obtain ⟨rfl, hLast⟩ := List.append_inj' hHistory rfl
        obtain rfl := List.singleton_injective hLast
        obtain ⟨-, hFree, -⟩ := spends_exec hSpends
        obtain ⟨earlier, hMem, hEarlier⟩ := hEarlier
        refine ⟨?_, fun _ hMem => nomatch hMem⟩
        rcases h.row earlier hMem row hEarlier with hFind | hLate
        · rw [hFree] at hFind
          cases hFind
        · omega
      · rw [List.concat_eq_append, ← List.cons_append, ← List.append_assoc] at hHistory
        obtain ⟨hOld, hLast⟩ := List.append_inj' hHistory rfl
        obtain rfl := List.singleton_injective hLast
        obtain ⟨hLate, hReads⟩ := h.late before event after row hOld hSpends hEarlier
        refine ⟨by omega, fun event' hMem now hNow' => ?_⟩
        rw [List.concat_eq_append] at hMem
        rcases List.mem_append.mp hMem with hMem | hMem
        · exact hReads event' hMem now hNow'
        · rw [List.mem_singleton.mp hMem] at hNow'
          have hEq := reads_exec hNow'
          omega

theorem Reachable.kept {st : System} (h : Reachable settings st) : Kept st := by
  obtain ⟨start, hReaches⟩ := h
  refine hReaches.keeps (fun _ _ _ hBefore hKept hStep => hKept.step hBefore hStep) ?_
  constructor
  · exact fun _ hMem => nomatch hMem
  · intro before event after row hHistory
    simp [Config.init] at hHistory

/-! ## Spends -/

/-- No spend inserts a token's id when the token, spent before, is past its expiry by more than the skew. -/
def Timely (st : System) (label : Label Nat Token) : Prop :=
  ∀ thread elapsed token row, ∀ rest : Reply (.insert row) → Program, label = .run thread elapsed →
    st.threads[thread]? = some (token, .stmt (.insert row) rest) →
    ∀ event ∈ st.history, ∀ spent, spends event = some spent → spent.id = row.id →
      st.shared.now + elapsed ≤ spent.expiresAt + replaySkew

/-- The events that spent an id. -/
def spendsOf (jti : String) (st : System) : Nat :=
  st.history.countP fun event => (spends event).any fun row => row.id = jti

theorem Timely.spendsOf_step {start : Int} {st fin : System}
    (hReaches : (exchanges settings).Reaches (.init ⟨start, []⟩) st) {label : Label Nat Token}
    (hTimely : Timely st label) (hStep : (exchanges settings).step st label = some fin) {jti : String}
    (h : spendsOf jti st ≤ 1) : spendsOf jti fin ≤ 1 := by
  rcases Machine.step_event hStep with ⟨token, -, rfl⟩ | ⟨thread, elapsed, token, p, s, rest, rfl, hThread, hNext, rfl⟩
  · exact h
  · rw [spendsOf, exchanges_exec, List.countP_append, List.countP_singleton]
    split
    · rename_i hNew
      obtain ⟨row, hSpends, hId⟩ := (Option.any_eq_true ..).mp hNew
      obtain rfl : row.id = jti := of_decide_eq_true hId
      obtain ⟨rfl, hFree, -⟩ := spends_exec hSpends
      have hNone : st.history.countP (fun event => (spends event).any fun other => other.id = row.id) = 0 := by
        rw [List.countP_eq_zero]
        intro event hMem hSpent
        obtain ⟨spent, hSpent, hSame⟩ := (Option.any_eq_true ..).mp hSpent
        have hSame : spent.id = row.id := of_decide_eq_true hSame
        rcases (Reachable.kept ⟨start, hReaches⟩).row event hMem spent hSpent with hFind | hLate
        · rw [hSame, hFree] at hFind
          cases hFind
        · cases p with
          | ret result => cases hNext
          | stmt s' rest' =>
            cases hNext
            have hInTime := hTimely thread elapsed token row rest rfl hThread event hMem spent hSpent hSame
            omega
      rw [hNone]
    · exact h

/-! ## Mints -/

theorem Reachable.minted {st : System} (h : Reachable settings st) {thread : Nat} {token : Token}
    {expiresAt : Int} (hMinted : Returned st thread token (.minted expiresAt)) :
    expiresAt ≤ fromtimestamp token.exp ∧
      ∃ before event after, st.history = before ++ event :: after ∧ event.thread = thread ∧
        spends event = some ⟨token.jti, fromtimestamp token.exp⟩ ∧
        ∃ event ∈ after, ∃ now, reads event = some now ∧ now < expiresAt := by
  obtain ⟨start, hReaches⟩ := h
  obtain ⟨hLe, earlier, event, later, hEvents, hSpends, read, hMem, now, hReads, hLess⟩ :=
    (drives_exchange (Reaches.drives hReaches hMinted)).2 expiresAt rfl
  obtain ⟨before, rest, hHistory, -, hRest⟩ := List.filter_eq_append_iff.mp hEvents
  obtain ⟨between, after, rfl, -, hThread, rfl⟩ := List.filter_eq_cons_iff.mp hRest
  refine ⟨hLe, before ++ between, event, after, ?_, of_decide_eq_true hThread, hSpends, read,
    List.mem_of_mem_filter hMem, now, hReads, hLess⟩
  rw [hHistory, List.append_assoc]

theorem Kept.minted_once {st : System} (h : Kept st) {before after : List (Event Statement Reply Nat)}
    {event earlier : Event Statement Reply Nat} {jti : String} {tokenExpiry expiresAt now : Int}
    (hHistory : st.history = before ++ event :: after) (hSpends : spends event = some ⟨jti, tokenExpiry⟩)
    (hEarlier : earlier ∈ before) (hSpent : spends earlier = some ⟨jti, tokenExpiry⟩)
    (hLe : expiresAt ≤ tokenExpiry) {read : Event Statement Reply Nat} (hRead : read ∈ after)
    (hReads : reads read = some now) : expiresAt < now := by
  obtain ⟨-, hLate⟩ := h.late before event after _ hHistory hSpends ⟨earlier, hEarlier, hSpent⟩
  have hNow := hLate read hRead now hReads
  simp only [replaySkew, second] at hNow
  omega

theorem token_spent_once (settings : Settings) {st : System} (h : Reachable settings st) :
    (∀ start, (exchanges settings).ReachesWhile Timely (.init ⟨start, []⟩) st → ∀ jti, spendsOf jti st ≤ 1) ∧
    (∀ n m token token' expiresAt expiresAt', Returned st n token (.minted expiresAt) →
      Returned st m token' (.minted expiresAt') → token.jti = token'.jti → token.exp = token'.exp → n = m) ∧
    ∀ n token expiresAt, Returned st n token (.minted expiresAt) →
      expiresAt ≤ fromtimestamp token.exp ∧
        ((fromtimestamp token.exp : ℚ) ≤ token.exp * second → (expiresAt : ℚ) ≤ token.exp * second) := by
  refine ⟨?_, ?_, ?_⟩
  · intro start hTimely jti
    refine @Machine.ReachesWhile.keeps _ _ _ _ _ _ (exchanges settings) Timely (fun st => spendsOf jti st ≤ 1)
      _ _ ?_ hTimely (Nat.zero_le _)
    exact fun _ _ _ hReaches hOnce hOk hStep => hOk.spendsOf_step hReaches hStep hOnce
  · intro n m token token' expiresAt expiresAt' hMinted hMinted' hJti hExp
    obtain ⟨hLe, before, event, after, hHistory, hThread, hSpends, read, hRead, now, hReads, hLess⟩ :=
      h.minted hMinted
    obtain ⟨hLe', before', event', after', hHistory', hThread', hSpends', read', hRead', now', hReads', hLess'⟩ :=
      h.minted hMinted'
    rw [← hJti, ← hExp] at hSpends'
    rw [← hExp] at hLe'
    by_contra hNe
    have hEvents : event ≠ event' := by
      rintro rfl
      exact hNe (hThread.symm.trans hThread')
    rcases before_or_after (hHistory.symm.trans hHistory') hEvents with hFirst | hFirst
    · have hOver := h.kept.minted_once hHistory' hSpends' hFirst hSpends hLe' hRead' hReads'
      omega
    · have hOver := h.kept.minted_once hHistory hSpends hFirst hSpends' hLe hRead hReads
      omega
  · intro n token expiresAt hMinted
    obtain ⟨hLe, -⟩ := h.minted hMinted
    refine ⟨hLe, fun hExact => le_trans ?_ hExact⟩
    exact_mod_cast hLe

/-! ## A token at the end of its window -/

def plainSettings : Settings where
  admits _ _ := true
  maxTokenAge := 600
  sessionTtl := 3600

def token : Token := ⟨"t", 0, (100 : Int)⟩

/-- One exchange, run to its insert. -/
def presents (thread elapsed : Nat) : List (Label Nat Token) :=
  [.call token, .run thread elapsed, .run thread 0, .run thread 0, .run thread 0]

/-- Where the run of these labels ends. -/
def after (st : System) (labels : List (Label Nat Token)) : System :=
  ((exchanges plainSettings).run st labels).getD st

/-- The token is presented 60.5 and 60.9 seconds after its expiry. -/
def presentedTwice : System := after (.init ⟨160500000, []⟩) (presents 0 0 ++ presents 1 400000)

theorem reaches_after {now : Int} {labels : List (Label Nat Token)}
    (h : ((exchanges plainSettings).run (.init ⟨now, []⟩) labels).isSome = true) :
    Reachable plainSettings (after (.init ⟨now, []⟩) labels) := by
  obtain ⟨fin, hRun⟩ := Option.isSome_iff_exists.mp h
  rw [after, hRun]
  exact ⟨now, Machine.Reaches.of_run hRun⟩

/-- Both exchanges spend the token. -/
theorem token_spent_twice :
    ¬∀ (settings : Settings) (st : System), Reachable settings st → ∀ jti, spendsOf jti st ≤ 1 := by
  intro hAll
  have hReachable : Reachable plainSettings presentedTwice := reaches_after (by decide +kernel)
  have hOnce := hAll plainSettings presentedTwice hReachable "t"
  revert hOnce
  decide +kernel

/-- No token was spent yet when an insert runs. -/
def firstSpend (st : System) : Label Nat Token → Bool
  | .call _ => true
  | .run thread _ =>
    match st.threads[thread]? with
    | some (_, .stmt (.insert _) _) => st.history.all fun event => (spends event).isNone
    | _ => true

theorem timely_of_firstSpend (st : System) (label : Label Nat Token) (h : firstSpend st label = true) :
    Timely st label := by
  rintro thread elapsed token row rest rfl hThread event hMem spent hSpends
  simp only [firstSpend, hThread] at h
  have hNone := List.all_eq_true.mp h event hMem
  rw [hSpends] at hNone
  cases hNone

/-- The session that an exchange of the token minted ends then. -/
def mints (st : System) (thread : Nat) (token : Token) : Option Int :=
  match st.threads[thread]? with
  | some (token', .ret (.minted expiresAt)) => if token' = token then some expiresAt else none
  | _ => none

theorem returned_of_mints {st : System} {thread : Nat} {token : Token} {expiresAt : Int}
    (h : mints st thread token = some expiresAt) : Returned st thread token (.minted expiresAt) := by
  rw [mints] at h
  split at h
  · rename_i token' expiresAt' hThread
    split at h
    · rename_i hToken
      rw [← hToken, ← Option.some.inj h]
      exact hThread
    · cases h
  · cases h

/-- The token is exchanged 50 seconds before its expiry. -/
def exchanged : Option System :=
  (exchanges plainSettings).runWhile firstSpend (.init ⟨50000000, []⟩) (presents 0 0 ++ [.run 0 0, .run 0 0])

theorem token_spent_once_exchanged :
    ∃ st, exchanged = some st ∧ spendsOf "t" st ≤ 1 ∧
      ∃ expiresAt, mints st 0 token = some expiresAt ∧ (expiresAt : ℚ) ≤ token.exp * second := by
  have hRun : (exchanged.bind fun st => mints st 0 token) = some 100000000 := by decide +kernel
  obtain ⟨st, hExchanged, hMints⟩ := Option.bind_eq_some_iff.mp hRun
  have hTimely : (exchanges plainSettings).ReachesWhile Timely (.init ⟨50000000, []⟩) st :=
    .of_run timely_of_firstSpend hExchanged
  have hAll := token_spent_once plainSettings ⟨_, hTimely.reaches⟩
  have hExact : (fromtimestamp token.exp : ℚ) ≤ token.exp * second := by
    rw [token, fromtimestamp_intCast, Int.cast_mul]
  exact ⟨st, hExchanged, hAll.1 _ hTimely "t", _, hMints,
    (hAll.2.2 0 token _ (returned_of_mints hMints)).2 hExact⟩

end Bajutsu.Serve.Oidc
