import Bajutsu.Drivers.Selector
import Bajutsu.Lib.RelyGuarantee

/-!
# The index of the last list asked

All threads look single ids up through one memo of the module, which holds the index of the list that was
indexed last, under the list's address. A call reads the memo up to three times, and anything may run between
two of its reads.
-/

namespace Bajutsu.Drivers

open Interleaving PyValue

abbrev Index (N : Type) := List (Option String × List (Element N))

/-- `(id(elements), elements, idx)`. -/
structure Memo (N : Type) where
  address : Nat
  elements : List (Element N)
  idx : Index N

/-- `_cached_index is not None`, `_cached_index[0]`, `_cached_index[2]`, and the assignment. -/
inductive MemoStatement (N : Type) where
  | isSet
  | address
  | index
  | store (memo : Memo N)

def MemoReply (N : Type) : MemoStatement N → Type
  | .isSet => Bool
  | .address => Option Nat
  | .index => Option (Index N)
  | .store _ => Unit

def execMemo {N : Type} : (s : MemoStatement N) → Unit → Option (Memo N) → Option (Memo N) × MemoReply N s
  | .isSet, _, memo => (memo, memo.isSome)
  | .address, _, memo => (memo, memo.map Memo.address)
  | .index, _, memo => (memo, memo.map Memo.idx)
  | .store memo, _, _ => (some memo, ())

/-- What a call raises: an error of the resolution, or the `TypeError` of `None[0]`. -/
inductive Failure where
  | resolve (e : ResolveError)
  | noneNotSubscriptable

abbrev Search (N α : Type) := Prog (MemoStatement N) (MemoReply N) (Except Failure α)

/-- The rest of a function, unless what comes before it raises. -/
def Search.andThen {N α β : Type} (p : Search N α) (f : α → Search N β) : Search N β :=
  p.bind fun
    | .error e => .ret (.error e)
    | .ok value => f value

section Search

variable {N : Type}

/-- The loop over the elements and the assignment. -/
def buildIndex (address : Nat) (elements : List (Element N)) : Search N (Index N) :=
  .stmt (.store ⟨address, elements, idIndex elements⟩) fun _ => .ret (.ok (idIndex elements))

def returnCached : Search N (Index N) :=
  .stmt .index fun
    | none => .ret (.error .noneNotSubscriptable)
    | some idx => .ret (.ok idx)

def compareAddress (address : Nat) (elements : List (Element N)) : Search N (Index N) :=
  .stmt .address fun
    | none => .ret (.error .noneNotSubscriptable)
    | some cached => if cached = address then returnCached else buildIndex address elements

/-- `_id_index`. -/
def idIndexCall (address : Nat) (elements : List (Element N)) : Search N (Index N) :=
  .stmt .isSet fun
    | false => buildIndex address elements
    | true => compareAddress address elements

variable [Add N] [LE N] [DecidableLE N]
variable (fnmatchcase : String → String → Bool) (compile : String → Option (String → Bool))

def baseMatchesCall (address : Nat) (elements : List (Element N)) (sel : Selector) : Search N (List (Element N)) :=
  match singleId sel with
  | some id => (idIndexCall address elements).andThen fun idx => .ret (.ok ((get idx (some id)).getD []))
  | none => .ret ((scan (fun el => matchesSelector fnmatchcase compile el sel) elements).mapError .resolve)

/-- `find_all` on the list at an address. -/
def findAllCall (address : Nat) (elements : List (Element N)) (sel : Selector) : Search N (List (Element N)) :=
  (baseMatchesCall fnmatchcase compile address elements sel).andThen fun found =>
    match sel with
    | { within := none, .. } => .ret (.ok found)
    | { within := some parent, .. } =>
      (findAllCall address elements parent).andThen fun scopes => .ret (.ok (found.filter (inScopes scopes)))

/-- `find_all` without its fast path. -/
def scanAll (elements : List (Element N)) (sel : Selector) : Except ResolveError (List (Element N)) :=
  (scan (fun el => matchesSelector fnmatchcase compile el sel) elements).bind fun found =>
    match sel with
    | { within := none, .. } => .ok found
    | { within := some parent, .. } =>
      (scanAll elements parent).map fun scopes => found.filter (inScopes scopes)

/-- A call of `find_all` by one of the threads. -/
structure Query where
  address : Nat
  sel : Selector

def Query.start (lists : Nat → List (Element N)) (query : Query) : Search N (List (Element N)) :=
  findAllCall fnmatchcase compile query.address (lists query.address) query.sel

/-- The threads, on lists that each stay at their address. -/
def searches (lists : Nat → List (Element N)) :
    Machine (Option (Memo N)) (MemoStatement N) (MemoReply N) Unit Query (Search N (List (Element N))) :=
  .ofProg execMemo (Query.start fnmatchcase compile lists)

abbrev Threads (N : Type) :=
  Config (Option (Memo N)) (MemoStatement N) (MemoReply N) Unit Query (Search N (List (Element N)))

def written {α : Type} : Search N α → Option (Memo N)
  | .stmt (.store memo) _ => some memo
  | _ => none

def readsIndex {α : Type} : Search N α → Bool
  | .stmt .index _ => true
  | _ => false

/-- A memo is not replaced by that of another list while a call stands between its comparison and the read of the
index. -/
def keepsIndex (st : Threads N) : Label Unit Query → Bool
  | .call _ => true
  | .run n _ =>
    match (st.threads[n]?).bind fun (_, p) => written p with
    | none => true
    | some memo => st.threads.all fun (query, p) => !readsIndex p || query.address = memo.address

end Search

section Guarantee

variable {N : Type}

/-- The memo holds the index of the list at its address. -/
def MemoRight (lists : Nat → List (Element N)) (memo : Option (Memo N)) : Prop :=
  ∀ m, memo = some m → m.idx = idIndex (lists m.address)

def reliesOn (address : Nat) : MemoStatement N → Option (Memo N) → Prop
  | .address, memo => memo.isSome = true
  | .index, memo => ∃ m, memo = some m ∧ m.address = address
  | _, _ => True

variable {lists : Nat → List (Element N)} {address : Nat}

theorem relies_andThen {α β : Type} {p : Search N α} {f : α → Search N β} {memo : Option (Memo N)}
    (h : p.Relies (reliesOn address) memo) (hNext : ∀ a, (f a).Relies (reliesOn address) memo) :
    (p.andThen f).Relies (reliesOn address) memo := by
  refine h.bind fun result _ => ?_
  cases result with
  | error e => trivial
  | ok a => exact hNext a

theorem guarantees_andThen {α β : Type} {p : Search N α} {f : α → Search N β} {x : Except ResolveError α}
    {g : α → Except ResolveError β}
    (h : p.Guarantees execMemo (MemoRight lists) (reliesOn address) (· = x.mapError .resolve))
    (hRelies : ∀ a memo, (f a).Relies (reliesOn address) memo)
    (hNext : ∀ a, (f a).Guarantees execMemo (MemoRight lists) (reliesOn address) (· = (g a).mapError .resolve)) :
    (p.andThen f).Guarantees execMemo (MemoRight lists) (reliesOn address) (· = (x.bind g).mapError .resolve) := by
  refine h.bind ?_ ?_
  · rintro result memo hResult -
    cases x with
    | error e =>
      subst hResult
      trivial
    | ok a =>
      subst hResult
      exact hRelies a memo
  · intro result hResult
    cases x with
    | error e =>
      subst hResult
      exact rfl
    | ok a =>
      subst hResult
      exact hNext a

/-! ## The index -/

theorem guarantees_buildIndex :
    (buildIndex address (lists address)).Guarantees execMemo (MemoRight lists) (reliesOn address)
      (· = .ok (idIndex (lists address))) := by
  intro _ memo _ _
  refine ⟨?_, trivial, rfl⟩
  rintro m ⟨⟩
  rfl

theorem guarantees_returnCached :
    (returnCached : Search N (Index N)).Guarantees execMemo (MemoRight lists) (reliesOn address)
      (· = .ok (idIndex (lists address))) := by
  rintro _ _ hRight ⟨m, rfl, rfl⟩
  exact ⟨hRight, trivial, congrArg Except.ok (hRight m rfl)⟩

theorem guarantees_compareAddress :
    (compareAddress address (lists address)).Guarantees execMemo (MemoRight lists) (reliesOn address)
      (· = .ok (idIndex (lists address))) := by
  rintro _ memo hRight hSet
  obtain ⟨m, rfl⟩ := Option.isSome_iff_exists.mp hSet
  let goesOn : Search N (Index N) := if m.address = address then returnCached else buildIndex address (lists address)
  have hGoesOn : goesOn.Relies (reliesOn address) (some m) ∧
      goesOn.Guarantees execMemo (MemoRight lists) (reliesOn address) (· = .ok (idIndex (lists address))) := by
    by_cases hSame : m.address = address
    · rw [show goesOn = returnCached from if_pos hSame]
      exact ⟨⟨m, rfl, hSame⟩, guarantees_returnCached⟩
    · rw [show goesOn = buildIndex address (lists address) from if_neg hSame]
      exact ⟨trivial, guarantees_buildIndex⟩
  exact ⟨hRight, hGoesOn⟩

theorem guarantees_idIndexCall :
    (idIndexCall address (lists address)).Guarantees execMemo (MemoRight lists) (reliesOn address)
      (· = .ok (idIndex (lists address))) := by
  intro _ memo hRight _
  cases memo with
  | none => exact ⟨hRight, trivial, guarantees_buildIndex⟩
  | some m => exact ⟨hRight, rfl, guarantees_compareAddress⟩

end Guarantee

section Resolution

variable {N : Type} {fnmatchcase : String → String → Bool} {compile : String → Option (String → Bool)}
variable {lists : Nat → List (Element N)} {address : Nat}

theorem relies_baseMatchesCall (elements : List (Element N)) (sel : Selector) (memo : Option (Memo N)) :
    (baseMatchesCall fnmatchcase compile address elements sel).Relies (reliesOn address) memo := by
  rw [baseMatchesCall]
  split <;> trivial

theorem guarantees_baseMatchesCall (sel : Selector) :
    (baseMatchesCall fnmatchcase compile address (lists address) sel).Guarantees execMemo (MemoRight lists)
      (reliesOn address) (· = (baseMatches fnmatchcase compile (lists address) sel).mapError .resolve) := by
  rw [baseMatchesCall, baseMatches]
  cases hSingle : singleId sel with
  | none => exact rfl
  | some id =>
    have hIndex : (idIndexCall address (lists address)).Guarantees execMemo (MemoRight lists) (reliesOn address)
        (· = (Except.ok (idIndex (lists address)) : Except ResolveError _).mapError .resolve) := guarantees_idIndexCall
    exact guarantees_andThen (g := fun idx => .ok ((get idx (some id)).getD [])) hIndex (fun _ _ => trivial) fun _ => rfl

/-- A statement that passes the check leaves alone what the other calls rely on. -/
theorem spares_of_keepsIndex {st : Threads N} {n : Nat} {query : Query} {s : MemoStatement N}
    {rest : MemoReply N s → Search N (List (Element N))} (hKeeps : keepsIndex st (.run n ()) = true)
    (hThread : st.threads[n]? = some (query, .stmt s rest)) :
    Spares execMemo (fun query => reliesOn query.address) st n s () := by
  intro m other p _ hOther hRelies
  cases s with
  | isSet | address | index => exact hRelies
  | store memo =>
    rw [keepsIndex, hThread] at hKeeps
    have hAll := List.all_eq_true.mp hKeeps _ (List.mem_of_getElem? hOther)
    cases p with
    | ret value => trivial
    | stmt s' rest' =>
      cases s' with
      | isSet | store memo' => trivial
      | address => exact rfl
      | index =>
        have hSame : other.address = memo.address := by simpa [readsIndex] using hAll
        exact ⟨memo, rfl, hSame.symm⟩

variable [Add N] [LE N] [DecidableLE N]

theorem scanAll_eq (elements : List (Element N)) (sel : Selector) :
    scanAll fnmatchcase compile elements sel =
      (scan (fun el => matchesSelector fnmatchcase compile el sel) elements).bind fun found =>
        match sel.within with
        | none => .ok found
        | some parent =>
          (scanAll fnmatchcase compile elements parent).bind fun scopes => .ok (found.filter (inScopes scopes)) := by
  rw [scanAll.eq_def]
  obtain ⟨_, _, _, _, _, _, within, _⟩ := sel
  cases within <;> rfl

theorem within_sizeOf {sel parent : Selector} (h : sel.within = some parent) : sizeOf parent < sizeOf sel := by
  cases sel
  subst h
  simp only [Selector.mk.sizeOf_spec, Option.some.sizeOf_spec]
  omega

theorem findAll_eq_scanAll (elements : List (Element N)) (sel : Selector) :
    findAll fnmatchcase compile elements sel = scanAll fnmatchcase compile elements sel := by
  induction hSize : sizeOf sel using Nat.strong_induction_on generalizing sel with
  | _ n ih =>
    rw [findAll_eq, scanAll_eq, baseMatches_eq_scan]
    cases hWithin : sel.within with
    | none => rfl
    | some parent => simp only [ih _ (hSize ▸ within_sizeOf hWithin) parent rfl]

/-- The part of `find_all` after its first lookup. -/
def scopedCall (fnmatchcase : String → String → Bool) (compile : String → Option (String → Bool)) (address : Nat)
    (elements found : List (Element N)) : Option Selector → Search N (List (Element N))
  | none => .ret (.ok found)
  | some parent =>
    (findAllCall fnmatchcase compile address elements parent).andThen fun scopes =>
      .ret (.ok (found.filter (inScopes scopes)))

theorem findAllCall_eq (elements : List (Element N)) (sel : Selector) :
    findAllCall fnmatchcase compile address elements sel =
      (baseMatchesCall fnmatchcase compile address elements sel).andThen fun found =>
        scopedCall fnmatchcase compile address elements found sel.within := by
  rw [findAllCall.eq_def]
  obtain ⟨_, _, _, _, _, _, within, _⟩ := sel
  cases within <;> rfl

theorem relies_findAllCall (elements : List (Element N)) (sel : Selector) (memo : Option (Memo N)) :
    (findAllCall fnmatchcase compile address elements sel).Relies (reliesOn address) memo := by
  induction hSize : sizeOf sel using Nat.strong_induction_on generalizing sel with
  | _ n ih =>
    rw [findAllCall_eq]
    refine relies_andThen (relies_baseMatchesCall elements sel memo) fun found => ?_
    cases hWithin : sel.within with
    | none => trivial
    | some parent => exact relies_andThen (ih _ (hSize ▸ within_sizeOf hWithin) parent rfl) fun _ => trivial

theorem guarantees_findAllCall (sel : Selector) :
    (findAllCall fnmatchcase compile address (lists address) sel).Guarantees execMemo (MemoRight lists)
      (reliesOn address) (· = (findAll fnmatchcase compile (lists address) sel).mapError .resolve) := by
  induction hSize : sizeOf sel using Nat.strong_induction_on generalizing sel with
  | _ n ih =>
    rw [findAllCall_eq, findAll_eq]
    refine guarantees_andThen (guarantees_baseMatchesCall sel) ?_ ?_
    · intro found memo
      cases sel.within with
      | none => trivial
      | some parent => exact relies_andThen (relies_findAllCall _ parent memo) fun _ => trivial
    · intro found
      cases hWithin : sel.within with
      | none => exact rfl
      | some parent =>
        have hParent := ih _ (hSize ▸ within_sizeOf hWithin) parent rfl
        exact guarantees_andThen hParent (fun _ _ => trivial) fun _ => rfl

/-- As long as no memo is replaced while another call is about to read the index that it compared, every call finds
what the scan of its own list finds. -/
theorem find_all_eq_scan {st : Threads N}
    (h : (searches fnmatchcase compile lists).ReachesWhile (fun st label => keepsIndex st label = true) (.init none) st)
    {n : Nat} {query : Query} {result : Except Failure (List (Element N))}
    (hThread : st.threads[n]? = some (query, .ret result)) :
    result = (scanAll fnmatchcase compile (lists query.address) query.sel).mapError .resolve := by
  have hInit : MemoRight lists none := by
    rintro m ⟨⟩
  have hGuarantees (query : Query) : (query.start fnmatchcase compile lists).Guarantees execMemo (MemoRight lists)
      (reliesOn query.address) (· = (findAll fnmatchcase compile (lists query.address) query.sel).mapError .resolve) :=
    guarantees_findAllCall query.sel
  have hRelies (query : Query) (memo : Option (Memo N)) :
      (query.start fnmatchcase compile lists).Relies (reliesOn query.address) memo :=
    relies_findAllCall _ query.sel memo
  have hGuarded := h.guarded hGuarantees hRelies (fun _ _ _ _ _ _ _ => spares_of_keepsIndex) hInit
  rw [← findAll_eq_scanAll]
  exact hGuarded.later n query _ hThread

end Resolution

/-! ## Two devices with one id each -/

def saveOn (device : String) : Element Int := { button device ["button"] 0 with identifier := some "save" }

def screens : Nat → List (Element Int)
  | 0 => [saveOn "A"]
  | _ => [saveOn "B"]

def save : Selector := { id := some (.one "save") }

abbrev devices : Machine (Option (Memo Int)) (MemoStatement Int) (MemoReply Int) Unit Query (Search Int (List (Element Int))) :=
  searches (fun s p => s == p) (fun p => some fun s => s == p) screens

/-- Each device's thread asks its own screen, one after the other. -/
theorem find_all_eq_scan_in_turn :
    ∃ st : Threads Int, devices.ReachesWhile (fun st label => keepsIndex st label = true) (.init none) st ∧
      st.threads[1]? = some (⟨1, save⟩, .ret (.ok [saveOn "B"])) ∧
      .ok [saveOn "B"] = (scanAll (fun s p => s == p) (fun p => some fun s => s == p) (screens 1) save).mapError Failure.resolve := by
  have hRun : (devices.runWhile keepsIndex (.init none) [.call ⟨0, save⟩, .run 0 (), .run 0 (), .call ⟨1, save⟩,
    .run 1 (), .run 1 (), .run 1 ()]).isSome = true := rfl
  obtain ⟨st, hSt⟩ := Option.isSome_iff_exists.mp hRun
  have hReaches := Machine.ReachesWhile.of_run (fun _ _ hCheck => hCheck) hSt
  have hThread : st.threads[1]? = some (⟨1, save⟩, .ret (.ok [saveOn "B"])) := by
    cases hSt
    rfl
  exact ⟨st, hReaches, hThread, find_all_eq_scan hReaches hThread⟩

/-- The second device's thread replaces the memo between the comparison and the read of the first one's. -/
def replacing : List (Label Unit Query) :=
  [.call ⟨0, save⟩, .run 0 (), .run 0 (), .call ⟨0, save⟩, .call ⟨1, save⟩, .run 1 (), .run 1 (), .run 2 (), .run 2 (),
    .run 2 (), .run 1 ()]

theorem find_all_finds_other_screen :
    ¬∀ (st : Threads Int) (n : Nat) (query : Query) (result : Except Failure (List (Element Int))),
      devices.Reaches (.init none) st → st.threads[n]? = some (query, .ret result) →
        result = (scanAll (fun s p => s == p) (fun p => some fun s => s == p) (screens query.address) query.sel).mapError
          .resolve := by
  intro hAll
  have hScan := hAll (devices.after (.init none) replacing) 1 ⟨0, save⟩ (.ok [saveOn "B"]) (.after rfl) rfl
  have hLabels := congrArg (fun result : Except Failure (List (Element Int)) =>
    result.toOption.map (List.map Element.label)) hScan
  exact absurd hLabels (by decide)

end Bajutsu.Drivers
