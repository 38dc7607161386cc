import Bajutsu.Lib.History
import Bajutsu.Lib.Interleaving
import Bajutsu.Lib.Table
import Mathlib.Data.Rat.Floor
import Mathlib.Tactic.Linarith

/-!
# The exchange of a token for a machine session

A replica verifies the token, sweeps the table of spent ids, inserts the token's id, and mints a session
that ends with the token. The clock is in microseconds, is common to the replicas, and never goes back.
-/

namespace Bajutsu.Serve.Oidc

open History Interleaving

structure Token where
  jti : String
  iat : ℚ
  exp : ℚ
  deriving DecidableEq

/-- `admits` is what the signature, the other claims and the organisation's list say of the token. -/
structure Settings where
  admits : Int → Token → Bool
  maxTokenAge : ℚ
  sessionTtl : Int

def second : Int := 1000000

def clockSkew : Int := 60

def replaySkew : Int := 60 * second

/-- A time in seconds, to the nearest microsecond, to the even one of two. -/
def fromtimestamp (time : ℚ) : Int :=
  let below := (time * second).floor
  let rest := time * second - below
  if rest < 1 / 2 then below
  else if 1 / 2 < rest then below + 1
  else if below % 2 = 0 then below else below + 1

theorem fromtimestamp_intCast (time : Int) : fromtimestamp time = time * second := by
  have hFloor : ((time : ℚ) * second).floor = time * second := by
    rw [← Int.cast_mul]
    exact Rat.floor_intCast _
  simp only [fromtimestamp, hFloor, Int.cast_mul, sub_self]
  exact if_pos (by norm_num)

/-- When the verified token expires. -/
def verify (settings : Settings) (now : Int) (token : Token) : Option Int :=
  if !settings.admits now token then none
  else if token.exp < ((now.tdiv second - clockSkew : Int) : ℚ) then none
  else if settings.maxTokenAge + clockSkew < now / second - token.iat then none
  else some (fromtimestamp token.exp)

structure OidcJti where
  id : String
  expiresAt : Int
  deriving DecidableEq

structure Shared where
  now : Int
  rows : List OidcJti

inductive Statement where
  | clock
  | sweep (before : Int)
  | insert (row : OidcJti)

def Reply : Statement → Type
  | .clock => Int
  | .sweep _ => Unit
  | .insert _ => Bool

/-- The input is the time since the last statement. -/
def exec : (s : Statement) → Nat → Shared → Shared × Reply s
  | .clock, elapsed, shared =>
    let now : Int := shared.now + elapsed
    ({ shared with now := now }, now)
  | .sweep before, elapsed, shared =>
    ({ now := shared.now + elapsed
       rows := Table.delete (fun row => row.expiresAt < before) shared.rows }, ())
  | .insert row, elapsed, shared =>
    let inserted := Table.insert OidcJti.id row shared.rows
    ({ now := shared.now + elapsed, rows := inserted.1 }, inserted.2)

inductive Result where
  | refused
  | minted (expiresAt : Int)
  deriving DecidableEq

abbrev Program := Prog Statement Reply Result

def spendOidcJti (row : OidcJti) (andThen : Bool → Program) : Program :=
  .stmt .clock fun now : Int =>
    .stmt (.sweep (now - replaySkew)) fun _ =>
      .stmt (.insert row) fun spent : Bool => andThen spent

def mint (settings : Settings) (tokenExpiry : Int) : Program :=
  .stmt .clock fun now : Int =>
    let expiresAt := min (now + settings.sessionTtl * second) tokenExpiry
    .stmt .clock fun now : Int => if expiresAt ≤ now then .ret .refused else .ret (.minted expiresAt)

def oidcExchange (settings : Settings) (token : Token) : Program :=
  .stmt .clock fun now : Int =>
    match verify settings now token with
    | none => .ret .refused
    | some expiresAt =>
      spendOidcJti ⟨token.jti, expiresAt⟩ fun spent =>
        if spent then mint settings expiresAt else .ret .refused

/-- Any number of exchanges, each with its token. -/
def exchanges (settings : Settings) : Machine Shared Statement Reply Nat Token Program :=
  .ofProg exec (oidcExchange settings)

abbrev System := Config Shared Statement Reply Nat Token Program

def Reachable (settings : Settings) (st : System) : Prop :=
  ∃ now, (exchanges settings).Reaches (.init ⟨now, []⟩) st

def Returned (st : System) (thread : Nat) (token : Token) (result : Result) : Prop :=
  st.threads[thread]? = some (token, .ret result)

/-- The id and expiry that an event spent. -/
def spends : Event Statement Reply Nat → Option OidcJti
  | ⟨_, _, .insert row, spent⟩ =>
    let spent : Bool := spent
    if spent then some row else none
  | _ => none

/-- The time that an event read. -/
def reads : Event Statement Reply Nat → Option Int
  | ⟨_, _, .clock, now⟩ => some now
  | _ => none

variable {settings : Settings}

theorem exchanges_exec : (exchanges settings).exec = exec := rfl

/-! ## The clock -/

theorem exec_now (s : Statement) (elapsed : Nat) (shared : Shared) :
    (exec s elapsed shared).1.now = shared.now + elapsed := by
  cases s <;> rfl

theorem reads_exec {thread : Nat} {s : Statement} {elapsed : Nat} {shared : Shared} {now : Int}
    (h : reads ⟨thread, elapsed, s, (exec s elapsed shared).2⟩ = some now) :
    now = (exec s elapsed shared).1.now := by
  cases s with
  | clock => exact (Option.some.inj h).symm
  | sweep before => cases h
  | insert row => cases h

theorem reads_le {start : Int} {st : System} (h : (exchanges settings).Reaches (.init ⟨start, []⟩) st)
    {event : Event Statement Reply Nat} (hMem : event ∈ st.history) {now : Int} (hReads : reads event = some now) :
    now ≤ st.shared.now := by
  have hAll : ∀ event ∈ st.history, ∀ now, reads event = some now → now ≤ st.shared.now := by
    refine @Machine.Reaches.logged _ _ _ _ _ _ (exchanges settings)
      (fun shared events => ∀ event ∈ events, ∀ now, reads event = some now → now ≤ shared.now) ?_ _ _ h
      (fun _ hMem => nomatch hMem)
    intro thread s elapsed shared events hEvents event hMem now hReads
    rcases List.mem_append.mp hMem with hMem | hMem
    · have hOld := hEvents event hMem now hReads
      rw [exchanges_exec, exec_now]
      omega
    · rw [List.mem_singleton.mp hMem] at hReads
      exact (reads_exec hReads).le
  exact hAll event hMem now hReads

/-! ## The places of an exchange -/

theorem Reaches.drives {start : Shared} {st : System} (h : (exchanges settings).Reaches (.init start) st)
    {thread : Nat} {token : Token} {p : Program} (hThread : st.threads[thread]? = some (token, p)) :
    Machine.Drives (exchanges settings) (oidcExchange settings token)
      (Machine.eventsOf thread st.history) p :=
  (h.sound (Machine.Sound.init start)).drives thread token p hThread

theorem drives_mint {tokenExpiry : Int} {events : List (Event Statement Reply Nat)} {p : Program}
    (h : Machine.Drives (exchanges settings) (mint settings tokenExpiry) events p) :
    (∀ before rest, p ≠ .stmt (.sweep before) rest) ∧ ∀ expiresAt, p = .ret (.minted expiresAt) →
      expiresAt ≤ tokenExpiry ∧ ∃ event ∈ events, ∃ now, reads event = some now ∧ now < expiresAt := by
  rcases drives_stmt_cases h with ⟨rfl, -⟩ | ⟨thread, elapsed, (now : Int), later, rfl, hRest⟩
  · exact ⟨(fun _ _ h => nomatch h), fun _ h => nomatch h⟩
  · rcases drives_stmt_cases hRest with ⟨rfl, -⟩ | ⟨thread', elapsed', (now' : Int), later', rfl, hLast⟩
    · exact ⟨(fun _ _ h => nomatch h), fun _ h => nomatch h⟩
    · split at hLast
      · obtain ⟨rfl, -⟩ := drives_ret hLast
        exact ⟨(fun _ _ h => nomatch h), fun _ h => nomatch h⟩
      · rename_i hLive
        obtain ⟨rfl, rfl⟩ := drives_ret hLast
        refine ⟨(fun _ _ h => nomatch h), ?_⟩
        rintro expiresAt hRet
        cases hRet
        exact ⟨min_le_right _ _, _, List.mem_cons_of_mem _ List.mem_cons_self, now', rfl, not_le.mp hLive⟩

theorem verify_eq {now : Int} {token : Token} {expiresAt : Int} (h : verify settings now token = some expiresAt) :
    expiresAt = fromtimestamp token.exp := by
  rw [verify] at h
  split at h
  · cases h
  · split at h
    · cases h
    · split at h
      · cases h
      · exact (Option.some.inj h).symm

/-- A sweep goes back from a time its exchange read, and an exchange that minted spent its token before it
read the clock for the last time. -/
theorem drives_exchange {token : Token} {events : List (Event Statement Reply Nat)} {p : Program}
    (h : Machine.Drives (exchanges settings) (oidcExchange settings token) events p) :
    (∀ before rest, p = .stmt (.sweep before) rest →
      ∃ event ∈ events, ∃ now, reads event = some now ∧ before = now - replaySkew) ∧
    ∀ expiresAt, p = .ret (.minted expiresAt) → expiresAt ≤ fromtimestamp token.exp ∧
      ∃ earlier event later, events = earlier ++ event :: later ∧
        spends event = some ⟨token.jti, fromtimestamp token.exp⟩ ∧
        ∃ event ∈ later, ∃ now, reads event = some now ∧ now < expiresAt := by
  rcases drives_stmt_cases h with ⟨rfl, -⟩ | ⟨_, _, (now : Int), _, rfl, hVerified⟩
  · exact ⟨(fun _ _ h => nomatch h), fun _ h => nomatch h⟩
  · cases hVerify : verify settings now token with
    | none =>
      rw [hVerify] at hVerified
      obtain ⟨rfl, -⟩ := drives_ret hVerified
      exact ⟨(fun _ _ h => nomatch h), fun _ h => nomatch h⟩
    | some expiresAt =>
      rw [hVerify] at hVerified
      obtain rfl := verify_eq hVerify
      rcases drives_stmt_cases hVerified with ⟨rfl, -⟩ | ⟨_, _, (now' : Int), _, rfl, hSweep⟩
      · exact ⟨(fun _ _ h => nomatch h), fun _ h => nomatch h⟩
      · rcases drives_stmt_cases hSweep with ⟨rfl, rfl⟩ | ⟨_, _, _, _, rfl, hInsert⟩
        · refine ⟨fun before rest hEq => ?_, fun _ h => nomatch h⟩
          cases hEq
          exact ⟨_, List.mem_cons_of_mem _ List.mem_cons_self, now', rfl, rfl⟩
        · rcases drives_stmt_cases hInsert with ⟨rfl, rfl⟩ | ⟨_, _, (spent : Bool), _, rfl, hSpent⟩
          · exact ⟨(fun _ _ h => nomatch h), fun _ h => nomatch h⟩
          · cases spent with
            | false =>
              obtain ⟨rfl, -⟩ := drives_ret hSpent
              exact ⟨(fun _ _ h => nomatch h), fun _ h => nomatch h⟩
            | true =>
              obtain ⟨hNoSweep, hMinted⟩ := drives_mint hSpent
              refine ⟨fun before rest hEq => absurd hEq (hNoSweep before rest), fun expiresAt hEq => ?_⟩
              obtain ⟨hLe, hReads⟩ := hMinted expiresAt hEq
              exact ⟨hLe, [_, _, _], _, _, rfl, rfl, hReads⟩

end Bajutsu.Serve.Oidc
