import Bajutsu.Lib.History
import Mathlib.Data.List.DropRight
import Mathlib.Data.Rat.Floor
import Mathlib.Tactic.Linarith

/-!
# The issuer's signing keys

The keys that tokens are verified against are kept for a while, and read again when they are too old or lack a token's
key. A read may fail. How often there is one does not depend on the tokens.
-/

namespace Bajutsu.Serve.Jwks

open History

/-- An error that `_reload` catches, or one that it does not. -/
inductive Failure where
  | caught | raised

-- The bodies that are fetched, and the sets of keys.
variable {β K : Type}

/-- `jwksUri` is the text that a discovery document names, and `carries` is `_carries`. -/
structure Settings (β K : Type) where
  issuer : List Char
  ttl : ℚ
  minRefresh : ℚ
  carries : K → String → Bool
  jwksUri : β → Except Failure (Option (List Char))
  importKeySet : β → Except Failure K

abbrev Fetch (β : Type) := List Char → Except Failure β

/-- No attempt is before all times. -/
structure JwksCache (K : Type) where
  keys : Option K := none
  fetchedAt : ℚ := 0
  attemptedAt : Option ℚ := none

inductive Answer (K : Type) where
  | keys (keys : K)
  | refused
  | raised
  deriving DecidableEq

/-- A call, with what the issuer answers while it runs. -/
structure Call (β : Type) where
  kid : Option String
  now : ℚ
  fetch : Fetch β

def isHttps (url : List Char) : Bool := "https://".toList.isPrefixOf url

def https (url : List Char) : Except Failure (List Char) := if isHttps url then .ok url else .error .raised

def discoveryUrl (settings : Settings β K) : List Char :=
  settings.issuer.rdropWhile (· = '/') ++ "/.well-known/openid-configuration".toList

/-- The keys that are published now, when the discovery document names where. -/
def readKeys (settings : Settings β K) (fetch : Fetch β) : Except Failure (Option K) := do
  let document ← fetch (← https (discoveryUrl settings))
  match ← settings.jwksUri document with
  | none => return none
  | some uri => return some (← settings.importKeySet (← fetch (← https uri)))

namespace JwksCache

variable (settings : Settings β K)

/-- `_reload`, and whether an error leaves it. -/
def reload (fetch : Fetch β) (now : ℚ) (cache : JwksCache K) : JwksCache K × Bool :=
  match readKeys settings fetch with
  | .ok (some keys) => ({ cache with keys := some keys, fetchedAt := now }, false)
  | .ok none => (cache, false)
  | .error .caught => (cache, false)
  | .error .raised => (cache, true)

def live (now : ℚ) (cache : JwksCache K) : Option K := if now - cache.fetchedAt < settings.ttl then cache.keys else none

def usable (call : Call β) (cache : JwksCache K) : Option K :=
  (cache.live settings call.now).filter fun keys => call.kid.all (settings.carries keys)

def due (now : ℚ) (cache : JwksCache K) : Bool := cache.attemptedAt.all fun attempted => settings.minRefresh ≤ now - attempted

def answer (now : ℚ) (cache : JwksCache K) : Answer K := (cache.live settings now).elim .refused .keys

/-- `JwksCache.keys` -/
def keysFor (call : Call β) (cache : JwksCache K) : JwksCache K × Answer K :=
  match cache.usable settings call with
  | some keys => (cache, .keys keys)
  | none =>
    if cache.due settings call.now then
      let (cache, raised) := reload settings call.fetch call.now { cache with attemptedAt := some call.now }
      (cache, if raised then .raised else cache.answer settings call.now)
    else (cache, cache.answer settings call.now)

end JwksCache

/-! ## Any calls -/

/-- A read of the issuer, with the keys that it got. -/
structure Attempt (K : Type) where
  now : ℚ
  keys : Option K

structure State (K : Type) where
  cache : JwksCache K
  attempts : List (Attempt K)

variable (settings : Settings β K)

def attempted (cache : JwksCache K) (call : Call β) : List (Attempt K) :=
  if (cache.usable settings call).isNone && cache.due settings call.now then
    [⟨call.now, (readKeys settings call.fetch).toOption.join⟩]
  else []

def State.call (st : State K) (call : Call β) : State K :=
  ⟨(st.cache.keysFor settings call).1, st.attempts ++ attempted settings st.cache call⟩

def run (calls : List (Call β)) : State K := calls.foldl (State.call settings) ⟨{}, []⟩

variable {settings}

theorem call_cases (settings : Settings β K) (st : State K) (call : Call β) :
    (∃ keys, st.cache.usable settings call = some keys ∧
        st.call settings call = st ∧ (st.cache.keysFor settings call).2 = .keys keys) ∨
      (st.cache.usable settings call = none ∧ st.cache.due settings call.now = false ∧
        st.call settings call = st ∧ (st.cache.keysFor settings call).2 = st.cache.answer settings call.now) ∨
      ∃ got, st.cache.due settings call.now = true ∧
        st.call settings call = ⟨⟨got.or st.cache.keys, if got.isSome then call.now else st.cache.fetchedAt, some call.now⟩,
          st.attempts ++ [⟨call.now, got⟩]⟩ ∧
        ((st.cache.keysFor settings call).2 = .raised ∨
          (st.cache.keysFor settings call).2 = (st.call settings call).cache.answer settings call.now) := by
  rw [State.call, attempted, JwksCache.keysFor]
  cases hUsable : st.cache.usable settings call with
  | some keys => exact .inl ⟨keys, rfl, by simp, rfl⟩
  | none =>
    right
    cases hDue : st.cache.due settings call.now with
    | false => exact .inl ⟨rfl, rfl, by simp, by simp⟩
    | true =>
      refine .inr ⟨(readKeys settings call.fetch).toOption.join, rfl, ?_⟩
      simp only [if_pos, Option.isNone_none, Bool.and_self]
      rw [JwksCache.reload]
      cases hRead : readKeys settings call.fetch with
      | ok got =>
        cases got with
        | some keys => exact ⟨rfl, .inr rfl⟩
        | none => exact ⟨rfl, .inr rfl⟩
      | error failure =>
        cases failure with
        | caught => exact ⟨rfl, .inr rfl⟩
        | raised => exact ⟨rfl, .inl rfl⟩

/-- The keys at hand are those of the last read that got any. -/
structure Holds (settings : Settings β K) (st : State K) : Prop where
  spaced : st.attempts.Pairwise fun a b => a.now + settings.minRefresh ≤ b.now
  last : ∀ attempt ∈ st.attempts, ∃ now, st.cache.attemptedAt = some now ∧ attempt.now ≤ now
  attempted : ∀ now, st.cache.attemptedAt = some now → ∃ attempt ∈ st.attempts, attempt.now = now
  empty : st.cache.keys = none → ∀ attempt ∈ st.attempts, attempt.keys = none
  filled : ∀ keys, st.cache.keys = some keys →
    Since (fun _ => True) ⟨st.cache.fetchedAt, some keys⟩ (fun attempt => attempt.keys = none) st.attempts

theorem Holds.call (hMin : 0 ≤ settings.minRefresh) {st : State K} (h : Holds settings st) (call : Call β) :
    Holds settings (st.call settings call) := by
  rcases call_cases settings st call with ⟨-, -, hSame, -⟩ | ⟨-, -, hSame, -⟩ | ⟨got, hDue, hCall, -⟩
  · rw [hSame]
    exact h
  · rw [hSame]
    exact h
  · have hApart : ∀ attempt ∈ st.attempts, attempt.now + settings.minRefresh ≤ call.now := by
      intro attempt hMem
      obtain ⟨now, hNow, hLe⟩ := h.last attempt hMem
      rw [JwksCache.due, hNow] at hDue
      have hFloor : settings.minRefresh ≤ call.now - now := of_decide_eq_true hDue
      linarith
    rw [hCall]
    constructor
    · rw [List.pairwise_append]
      refine ⟨h.spaced, List.pairwise_singleton _ _, fun attempt hMem last hLast => ?_⟩
      rw [List.mem_singleton.mp hLast]
      exact hApart attempt hMem
    · intro attempt hMem
      refine ⟨call.now, rfl, ?_⟩
      rcases List.mem_append.mp hMem with hOld | hNew
      · have hBefore := hApart attempt hOld
        linarith
      · rw [List.mem_singleton.mp hNew]
    · intro now hNow
      obtain rfl := Option.some.inj hNow
      exact ⟨_, List.mem_append_right _ (List.mem_singleton_self _), rfl⟩
    · intro hNone attempt hMem
      obtain ⟨hGot, hKeys⟩ := Option.or_eq_none_iff.mp hNone
      rcases List.mem_append.mp hMem with hOld | hNew
      · exact h.empty hKeys attempt hOld
      · rw [List.mem_singleton.mp hNew]
        exact hGot
    · intro keys hKeys
      cases got with
      | some new =>
        obtain rfl := Option.some.inj hKeys
        exact .here trivial
      | none => exact (h.filled keys hKeys).later rfl

theorem holds_run (hMin : 0 ≤ settings.minRefresh) (calls : List (Call β)) : Holds settings (run settings calls) := by
  induction calls using List.reverseRecOn with
  | nil => exact ⟨.nil, by rintro attempt ⟨⟩, by rintro now ⟨⟩, by rintro - attempt ⟨⟩, by rintro keys ⟨⟩⟩
  | append_singleton calls call ih =>
    rw [run, List.foldl_append]
    exact ih.call hMin call

theorem Holds.latest (hMin : 0 ≤ settings.minRefresh) {st : State K} (h : Holds settings st) {attempt : Attempt K}
    (hMem : attempt ∈ st.attempts) (hGot : attempt.keys.isSome = true) :
    st.cache.keys.isSome = true ∧ attempt.now ≤ st.cache.fetchedAt := by
  cases hKeys : st.cache.keys with
  | none =>
    rw [h.empty hKeys attempt hMem] at hGot
    cases hGot
  | some keys =>
    refine ⟨rfl, ?_⟩
    obtain ⟨before, later, hAttempts, -, hLater⟩ := h.filled keys hKeys
    have hSpaced := h.spaced
    rw [hAttempts] at hMem hSpaced
    rcases List.mem_append.mp hMem with hBefore | hRest
    · have hApart := (List.pairwise_append.mp hSpaced).2.2 attempt hBefore _ List.mem_cons_self
      dsimp only at hApart
      linarith
    · rcases List.mem_cons.mp hRest with rfl | hLast
      · exact le_refl _
      · rw [hLater attempt hLast] at hGot
        cases hGot

/-- A call that is not answered at once has read the issuer, or there was a read shortly before. -/
theorem Holds.recent {st : State K} (h : Holds settings st) {call : Call β}
    (hUsable : st.cache.usable settings call = none) :
    ∃ attempt ∈ (st.call settings call).attempts, attempt.now = call.now ∨ call.now - attempt.now < settings.minRefresh := by
  rcases call_cases settings st call with ⟨keys, hKeys, -⟩ | ⟨-, hDue, hSame, -⟩ | ⟨got, -, hCall, -⟩
  · cases hUsable.symm.trans hKeys
  · rw [hSame]
    cases hLast : st.cache.attemptedAt with
    | none =>
      rw [JwksCache.due, hLast] at hDue
      cases hDue
    | some now =>
      obtain ⟨attempt, hMem, rfl⟩ := h.attempted now hLast
      rw [JwksCache.due, hLast] at hDue
      exact ⟨attempt, hMem, .inr (not_le.mp (of_decide_eq_false hDue))⟩
  · rw [hCall]
    exact ⟨_, List.mem_append_right _ (List.mem_singleton_self _), .inl rfl⟩

theorem run_concat (settings : Settings β K) (calls : List (Call β)) (call : Call β) :
    run settings (calls ++ [call]) = (run settings calls).call settings call := by
  rw [run, List.foldl_append]
  rfl

theorem answer_keys {now : ℚ} {cache : JwksCache K} {keys : K} (h : cache.answer settings now = .keys keys) :
    cache.keys = some keys ∧ now - cache.fetchedAt < settings.ttl := by
  rw [JwksCache.answer, JwksCache.live] at h
  split at h
  · rename_i hLive
    cases hKeys : cache.keys with
    | none =>
      rw [hKeys] at h
      cases h
    | some other =>
      rw [hKeys] at h
      cases h
      exact ⟨rfl, hLive⟩
  · cases h

theorem answer_refused {now : ℚ} {cache : JwksCache K} (h : cache.answer settings now = .refused)
    (hKeys : cache.keys.isSome = true) : settings.ttl ≤ now - cache.fetchedAt := by
  rw [JwksCache.answer, JwksCache.live] at h
  split at h
  · obtain ⟨keys, hKeys⟩ := Option.isSome_iff_exists.mp hKeys
    rw [hKeys] at h
    cases h
  · exact not_lt.mp ‹_›

theorem keysFor_keys {st : State K} {call : Call β} {keys : K} (h : (st.cache.keysFor settings call).2 = .keys keys) :
    (st.call settings call).cache.keys = some keys ∧ call.now - (st.call settings call).cache.fetchedAt < settings.ttl := by
  rcases call_cases settings st call with
    ⟨other, hUsable, hSame, hAnswer⟩ | ⟨-, -, hSame, hAnswer⟩ | ⟨got, -, -, hAnswer | hAnswer⟩
  · cases hAnswer.symm.trans h
    rw [hSame]
    obtain ⟨hLive, -⟩ := Option.filter_eq_some_iff.mp hUsable
    rw [JwksCache.live] at hLive
    split at hLive
    · exact ⟨hLive, ‹_›⟩
    · cases hLive
  · rw [hSame]
    exact answer_keys (hAnswer.symm.trans h)
  · cases hAnswer.symm.trans h
  · exact answer_keys (hAnswer.symm.trans h)

theorem keysFor_refused {st : State K} {call : Call β} (h : (st.cache.keysFor settings call).2 = .refused) :
    st.cache.usable settings call = none ∧ (st.call settings call).cache.answer settings call.now = .refused := by
  rcases call_cases settings st call with
    ⟨other, -, -, hAnswer⟩ | ⟨hUsable, -, hSame, hAnswer⟩ | ⟨got, -, -, hAnswer | hAnswer⟩
  · cases hAnswer.symm.trans h
  · refine ⟨hUsable, ?_⟩
    rw [hSame]
    exact hAnswer.symm.trans h
  · cases hAnswer.symm.trans h
  · refine ⟨?_, hAnswer.symm.trans h⟩
    cases hUsable : st.cache.usable settings call with
    | none => rfl
    | some keys =>
      rw [JwksCache.keysFor, hUsable] at h
      cases h

theorem Holds.once {st : State K} (h : Holds settings st) (t : ℚ) :
    (st.attempts.countP fun attempt => t ≤ attempt.now && attempt.now < t + settings.minRefresh) ≤ 1 := by
  rw [List.countP_eq_length_filter]
  have hSpaced := h.spaced.filter fun attempt => t ≤ attempt.now && attempt.now < t + settings.minRefresh
  have hWindow : ∀ attempt ∈ st.attempts.filter fun attempt => t ≤ attempt.now && attempt.now < t + settings.minRefresh,
      t ≤ attempt.now ∧ attempt.now < t + settings.minRefresh := by
    intro attempt hMem
    simpa using (List.mem_filter.mp hMem).2
  cases hFilter : st.attempts.filter fun attempt => t ≤ attempt.now && attempt.now < t + settings.minRefresh with
  | nil => exact Nat.zero_le _
  | cons first rest =>
    rw [hFilter] at hSpaced hWindow
    cases rest with
    | nil => exact le_refl _
    | cons second rest =>
      have hApart := (List.pairwise_cons.mp hSpaced).1 second List.mem_cons_self
      have hFirst := (hWindow first List.mem_cons_self).1
      have hSecond := (hWindow second (List.mem_cons_of_mem _ List.mem_cons_self)).2
      linarith

theorem keys_fresh (settings : Settings β K) (hMin : 0 ≤ settings.minRefresh) (calls : List (Call β)) (call : Call β) :
    (∀ t, ((run settings calls).attempts.countP fun attempt => t ≤ attempt.now && attempt.now < t + settings.minRefresh) ≤ 1) ∧
    (∀ keys, ((run settings calls).cache.keysFor settings call).2 = .keys keys →
      (∃ now, Since (fun _ => True) ⟨now, some keys⟩ (fun attempt => attempt.keys = none)
        (run settings (calls ++ [call])).attempts ∧ call.now - now < settings.ttl) ∧
      (call.kid.all (settings.carries keys) = false → ∃ attempt ∈ (run settings (calls ++ [call])).attempts,
        attempt.now = call.now ∨ call.now - attempt.now < settings.minRefresh)) ∧
    (((run settings calls).cache.keysFor settings call).2 = .refused →
      (∀ attempt ∈ (run settings (calls ++ [call])).attempts, attempt.keys.isSome = true →
        settings.ttl ≤ call.now - attempt.now) ∧
      ∃ attempt ∈ (run settings (calls ++ [call])).attempts,
        attempt.now = call.now ∨ call.now - attempt.now < settings.minRefresh) := by
  have hHolds := holds_run hMin calls
  have hAfter := holds_run hMin (calls ++ [call])
  rw [run_concat] at hAfter ⊢
  refine ⟨hHolds.once, fun keys hAnswer => ?_, fun hAnswer => ?_⟩
  · obtain ⟨hKeys, hLive⟩ := keysFor_keys hAnswer
    refine ⟨⟨_, hAfter.filled keys hKeys, hLive⟩, fun hLacks => ?_⟩
    cases hUsable : (run settings calls).cache.usable settings call with
    | none => exact hHolds.recent hUsable
    | some other =>
      rw [JwksCache.keysFor, hUsable] at hAnswer
      cases hAnswer
      obtain ⟨-, hCarries⟩ := Option.filter_eq_some_iff.mp hUsable
      rw [hLacks] at hCarries
      cases hCarries
  · obtain ⟨hUsable, hRefused⟩ := keysFor_refused hAnswer
    refine ⟨fun attempt hMem hGot => ?_, hHolds.recent hUsable⟩
    obtain ⟨hKeys, hLe⟩ := hAfter.latest hMin hMem hGot
    have hOld := answer_refused hRefused hKeys
    linarith

/-- A body is the discovery document, or the names of the published keys. -/
def actions : Settings (Option (List String)) (List String) where
  issuer := "https://issuer/".toList
  ttl := 600
  minRefresh := 60
  carries keys kid := decide (kid ∈ keys)
  jwksUri _ := .ok (some "https://issuer/keys".toList)
  importKeySet body := body.elim (.error .caught) .ok

def published (keys : List String) : Fetch (Option (List String)) := fun url =>
  .ok (if url = discoveryUrl actions then none else some keys)

def unreachable : Fetch (Option (List String)) := fun _ => .error .caught

/-- A key that is not published, a little after the keys were read. -/
def unknown : Call (Option (List String)) := ⟨some "k2", 30, published ["k1", "k2"]⟩

/-- The issuer cannot be reached once the keys are too old. -/
def expired : Call (Option (List String)) := ⟨some "k1", 700, unreachable⟩

theorem keys_fresh_actions :
    let first : Call (Option (List String)) := ⟨some "k1", 0, published ["k1"]⟩
    (∃ attempt ∈ (run actions ([first] ++ [unknown])).attempts, attempt.now = 30 ∨ 30 - attempt.now < 60) ∧
      ∀ attempt ∈ (run actions ([first, unknown] ++ [expired])).attempts,
        attempt.keys.isSome = true → 600 ≤ 700 - attempt.now := by
  intro first
  have hMin : 0 ≤ actions.minRefresh := by decide +kernel
  have hKeys : ((run actions [first]).cache.keysFor actions unknown).2 = .keys ["k1"] := by decide +kernel
  have hRefused : ((run actions [first, unknown]).cache.keysFor actions expired).2 = .refused := by decide +kernel
  exact ⟨((keys_fresh actions hMin [first] unknown).2.1 _ hKeys).2 (by decide +kernel),
    ((keys_fresh actions hMin [first, unknown] expired).2.2 hRefused).1⟩

end Bajutsu.Serve.Jwks
