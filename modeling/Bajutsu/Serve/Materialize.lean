import Bajutsu.Lib.Transition
import Bajutsu.Serve.UploadsExtract

/-!
# The cache of extracted bundles

Any number of calls ask for the extraction of one archive. Each that misses extracts into a directory of its own,
which it validates and then renames into place. What the system refuses, and whether it removes a tree, comes with
each step.
-/

namespace Bajutsu.Serve.Materialize

open FileSystem PyValue Uploads

variable {α : Type}

/-- A directory, and the call that made it. -/
structure Tree (α : Type) where
  maker : Nat
  fs : Fs (List α)

/-- What stands at the content address, and the temporary directory of each call. -/
structure Shared (α : Type) where
  dest : Option (Tree α)
  temps : List (Nat × Fs (List α))

/-- Why a call raises. -/
inductive Cause where
  | refused
  | extraction (f : Failure)
  | invalid (text : String)

/-- Where a call stands. It is `missing` after a rename that failed, `dropping` its own copy if another call won, and
`cleaning` if it failed. -/
inductive Place where
  | entering
  | checking
  | making
  | extracting
  | validating
  | moving
  | missing
  | dropping
  | cleaning (cause : Cause)
  | returned
  | raised (cause : Cause)

structure Call (α : Type) where
  validate : Option (Fs (List α) → Except String Unit)
  place : Place

/-- The system in one step: what an extraction meets, and whether making or moving a directory is refused, and
whether `rmtree` removes all. -/
structure Sys where
  env : Env
  refuses : Bool
  removes : Bool

def emptyDir : Fs (List α) := ⟨[], []⟩

/-- `rmtree` with the errors ignored. -/
def Shared.rmtree (shared : Shared α) (sys : Sys) (n : Nat) : Shared α :=
  if sys.removes then { shared with temps := pop shared.temps n } else shared

/-- A step of the call `n`. A directory is not renamed onto one with entries. -/
def Place.step (archive : Archive α) (sys : Sys) (n : Nat) (validate : Option (Fs (List α) → Except String Unit))
    (shared : Shared α) : Place → Option (Shared α × Place)
  | .entering => some (shared, if sys.refuses then .raised .refused else .checking)
  | .checking => some (shared, if shared.dest.isSome then .returned else .making)
  | .making =>
    if sys.refuses then some (shared, .raised .refused)
    else some ({ shared with temps := PyValue.set shared.temps n emptyDir }, .extracting)
  | .extracting =>
    (get shared.temps n).map fun fs =>
      match extractBundle sys.env [] fs archive with
      | (fs, .ok ()) => ({ shared with temps := PyValue.set shared.temps n fs }, .validating)
      | (fs, .error f) => ({ shared with temps := PyValue.set shared.temps n fs }, .cleaning (.extraction f))
  | .validating =>
    (get shared.temps n).map fun fs =>
      match validate with
      | none => (shared, .moving)
      | some validate =>
        match validate fs with
        | .ok () => (shared, .moving)
        | .error text => (shared, .cleaning (.invalid text))
  | .moving =>
    (get shared.temps n).map fun fs =>
      if sys.refuses || shared.dest.any fun tree => tree.fs.hasEntries [] then (shared, .missing)
      else (⟨some ⟨n, fs⟩, pop shared.temps n⟩, .returned)
  | .missing => some (shared, if shared.dest.isSome then .dropping else .cleaning .refused)
  | .dropping => some (shared.rmtree sys n, .returned)
  | .cleaning cause => some (shared.rmtree sys n, .raised cause)
  | .returned => none
  | .raised _ => none

structure State (α : Type) where
  shared : Shared α
  calls : List (Call α)

inductive Label (α : Type) where
  | call (validate : Option (Fs (List α) → Except String Unit))
  | step (n : Nat) (sys : Sys)

def State.step (archive : Archive α) (st : State α) : Label α → Option (State α)
  | .call validate => some { st with calls := st.calls ++ [⟨validate, .entering⟩] }
  | .step n sys =>
    match st.calls[n]? with
    | none => none
    | some call =>
      (call.place.step archive sys n call.validate st.shared).map fun (shared, place) =>
        ⟨shared, st.calls.set n { call with place }⟩

def State.init : State α := ⟨⟨none, []⟩, []⟩

end Bajutsu.Serve.Materialize

/-!
## What a call of the cache returns

A temporary directory holds what its call has got so far, and goes with it. The directory at the content address is
the one of the first rename, and stays.
-/

namespace Bajutsu.Serve.Materialize

open FileSystem PyValue Transition Uploads

variable {α : Type} {archive : Archive α}

/-- A full extraction of the archive into a directory that was empty. -/
def Full (archive : Archive α) (fs : Fs (List α)) : Prop :=
  ∃ infos, archive = .ok infos ∧ Extracted [] emptyDir infos fs

/-- The validation, where a call has one, passed. -/
def Accepts (validate : Option (Fs (List α) → Except String Unit)) (fs : Fs (List α)) : Prop :=
  ∀ v, validate = some v → v fs = .ok ()

/-- The steps that the result is about: an extraction whose exceptions are caught, a rename onto nothing or onto a
directory with entries, and an `rmtree` that removes all. -/
def Place.Orderly (archive : Archive α) (sys : Sys) (shared : Shared α) : Place → Prop
  | .extracting => Caught sys.env [] emptyDir archive
  | .moving => ∀ tree, shared.dest = some tree → tree.fs.hasEntries [] = true
  | .dropping => sys.removes = true
  | .cleaning _ => sys.removes = true
  | _ => True

def Orderly (archive : Archive α) (st : State α) : Label α → Prop
  | .call _ => True
  | .step n sys => ∀ call, st.calls[n]? = some call → call.place.Orderly archive sys st.shared

/-- What the temporary directory of a call holds. -/
def Place.holds (archive : Archive α) (validate : Option (Fs (List α) → Except String Unit)) (fs : Fs (List α)) :
    Place → Prop
  | .extracting => fs = emptyDir
  | .validating => Full archive fs
  | .moving => Full archive fs ∧ Accepts validate fs
  | .missing => True
  | .dropping => True
  | .cleaning _ => True
  | _ => False

/-- A call that has found the directory. -/
def Place.found : Place → Bool
  | .dropping => true
  | .returned => true
  | _ => false

/-- What the call raises is not of the zip reader. -/
def Place.proper : Place → Prop
  | .cleaning (.extraction (.escaped _)) => False
  | .raised (.extraction (.escaped _)) => False
  | _ => True

structure Right (archive : Archive α) (st : State α) : Prop where
  temps : ∀ n fs, get st.shared.temps n = some fs →
    ∃ call, st.calls[n]? = some call ∧ call.place.holds archive call.validate fs
  dest : ∀ tree, st.shared.dest = some tree →
    Full archive tree.fs ∧ ∃ call, st.calls[tree.maker]? = some call ∧ Accepts call.validate tree.fs
  found : ∀ call ∈ st.calls, call.place.found = true → st.shared.dest.isSome = true
  proper : ∀ call ∈ st.calls, call.place.proper

variable {shared shared' : Shared α} {place place' : Place} {sys : Sys} {n : Nat} {st mid fin : State α}
  {validate : Option (Fs (List α) → Except String Unit)} {label : Label α}

theorem stands_emptyDir : Stands [] (emptyDir : Fs (List α)) :=
  ⟨⟨List.nodup_nil, nofun, nofun, nofun⟩, rfl⟩

theorem step_cases (hStep : st.step archive label = some fin) :
    (∃ validate, label = .call validate ∧ fin = { st with calls := st.calls ++ [⟨validate, .entering⟩] }) ∨
      ∃ n sys call shared place, label = .step n sys ∧ st.calls[n]? = some call ∧
        call.place.step archive sys n call.validate st.shared = some (shared, place) ∧
        fin = ⟨shared, st.calls.set n { call with place }⟩ := by
  cases label with
  | call validate => exact .inl ⟨validate, rfl, (Option.some.inj hStep).symm⟩
  | step n sys =>
    rw [State.step] at hStep
    split at hStep
    · cases hStep
    · rename_i call hCall
      obtain ⟨⟨shared, place⟩, hPlace, rfl⟩ := Option.map_eq_some_iff.mp hStep
      exact .inr ⟨n, sys, call, shared, place, rfl, hCall, hPlace, rfl⟩

/-- What a step of the call `n` does, if it counts on what holds. -/
structure Moves (archive : Archive α) (n : Nat) (validate : Option (Fs (List α) → Except String Unit))
    (shared shared' : Shared α) (place' : Place) : Prop where
  others : ∀ m ≠ n, get shared'.temps m = get shared.temps m
  own : ∀ fs, get shared'.temps n = some fs → place'.holds archive validate fs
  dest : shared'.dest = shared.dest ∨
    (shared.dest = none ∧ ∃ fs, shared'.dest = some ⟨n, fs⟩ ∧ Full archive fs ∧ Accepts validate fs)
  found : place'.found = true → shared'.dest.isSome = true
  proper : place'.proper

theorem Moves.stay (hOwn : ∀ fs, get shared.temps n = some fs → place'.holds archive validate fs)
    (hFound : place'.found = true → shared.dest.isSome = true) (hProper : place'.proper) :
    Moves archive n validate shared shared place' :=
  ⟨fun _ _ => rfl, hOwn, .inl rfl, hFound, hProper⟩

theorem Moves.fill {fs : Fs (List α)} (hOwn : place'.holds archive validate fs) (hFound : place'.found = false)
    (hProper : place'.proper) :
    Moves archive n validate shared { shared with temps := PyValue.set shared.temps n fs } place' := by
  refine ⟨fun m hm => get_set_ne _ _ hm, fun found hGet => ?_, .inl rfl, fun h => ?_, hProper⟩
  · obtain rfl := Option.some.inj ((get_set_self _ _ _).symm.trans hGet)
    exact hOwn
  · cases hFound.symm.trans h

theorem Moves.remove (hSys : sys.removes = true) (hFound : place'.found = true → shared.dest.isSome = true)
    (hProper : place'.proper) : Moves archive n validate shared (shared.rmtree sys n) place' := by
  rw [Shared.rmtree, hSys, if_pos rfl]
  refine ⟨fun m hm => get_pop_ne _ hm, fun found hGet => ?_, .inl rfl, hFound, hProper⟩
  cases (get_pop_self _ _).symm.trans hGet

theorem extractBundle_full {env : Env} {fs : Fs (List α)} (hCaught : Caught env [] emptyDir archive)
    (h : extractBundle env [] emptyDir archive = (fs, .ok ())) : Full archive fs := by
  obtain ⟨-, hExtracts⟩ := (extracts_iff stands_emptyDir archive).mpr hCaught
  rw [h] at hExtracts
  exact hExtracts

theorem extractBundle_proper {env : Env} {fs : Fs (List α)} {f : Failure} (hCaught : Caught env [] emptyDir archive)
    (h : extractBundle env [] emptyDir archive = (fs, .error f)) : (Place.cleaning (.extraction f)).proper := by
  obtain ⟨-, hExtracts⟩ := (extracts_iff stands_emptyDir archive).mpr hCaught
  rw [h] at hExtracts
  cases f with
  | bundle e => trivial
  | escaped r => exact hExtracts

theorem place_moves (hOwn : ∀ fs, get shared.temps n = some fs → place.holds archive validate fs)
    (hFound : place.found = true → shared.dest.isSome = true) (hProper : place.proper)
    (hOk : place.Orderly archive sys shared)
    (hStep : place.step archive sys n validate shared = some (shared', place')) :
    Moves archive n validate shared shared' place' := by
  cases place with
  | entering =>
    obtain ⟨rfl, rfl⟩ := Prod.mk.inj (Option.some.inj hStep)
    split <;> exact .stay hOwn nofun trivial
  | checking =>
    obtain ⟨rfl, rfl⟩ := Prod.mk.inj (Option.some.inj hStep)
    split
    · exact .stay hOwn (fun _ => ‹_›) trivial
    · exact .stay hOwn nofun trivial
  | making =>
    rw [Place.step] at hStep
    split at hStep
    · obtain ⟨rfl, rfl⟩ := Prod.mk.inj (Option.some.inj hStep)
      exact .stay hOwn nofun trivial
    · obtain ⟨rfl, rfl⟩ := Prod.mk.inj (Option.some.inj hStep)
      exact .fill rfl rfl trivial
  | extracting =>
    obtain ⟨fs, hGet, hNext⟩ := Option.map_eq_some_iff.mp hStep
    obtain rfl : fs = emptyDir := hOwn fs hGet
    split at hNext
    · rename_i fin hExtract
      obtain ⟨rfl, rfl⟩ := Prod.mk.inj hNext
      exact .fill (extractBundle_full hOk hExtract) rfl trivial
    · rename_i fin f hExtract
      obtain ⟨rfl, rfl⟩ := Prod.mk.inj hNext
      exact .fill trivial rfl (extractBundle_proper hOk hExtract)
  | validating =>
    obtain ⟨fs, hGet, hNext⟩ := Option.map_eq_some_iff.mp hStep
    have hAccepted (hAccepts : Accepts validate fs) : Moves archive n validate shared shared .moving := by
      refine .stay (fun found hFoundFs => ?_) nofun trivial
      obtain rfl := Option.some.inj (hGet.symm.trans hFoundFs)
      exact ⟨hOwn fs hGet, hAccepts⟩
    cases validate with
    | none =>
      obtain ⟨rfl, rfl⟩ := Prod.mk.inj hNext
      exact hAccepted nofun
    | some v =>
      dsimp only at hNext
      split at hNext
      · rename_i hPasses
        obtain ⟨rfl, rfl⟩ := Prod.mk.inj hNext
        refine hAccepted fun w hw => ?_
        cases hw
        exact hPasses
      · obtain ⟨rfl, rfl⟩ := Prod.mk.inj hNext
        exact .stay (fun _ _ => trivial) nofun trivial
  | moving =>
    obtain ⟨fs, hGet, hNext⟩ := Option.map_eq_some_iff.mp hStep
    split at hNext
    · obtain ⟨rfl, rfl⟩ := Prod.mk.inj hNext
      exact .stay (fun _ _ => trivial) nofun trivial
    · rename_i hTaken
      obtain ⟨rfl, rfl⟩ := Prod.mk.inj hNext
      have hNone : shared.dest = none := by
        rw [Bool.or_eq_true, not_or] at hTaken
        by_contra hSome
        obtain ⟨tree, hTree⟩ := Option.ne_none_iff_exists'.mp hSome
        have hEntries := hOk tree hTree
        rw [hTree] at hTaken
        exact hTaken.2 hEntries
      refine ⟨fun m hm => get_pop_ne _ hm, fun found hFoundFs => ?_, .inr ⟨hNone, fs, rfl, hOwn fs hGet⟩, fun _ => rfl,
        trivial⟩
      cases (get_pop_self _ _).symm.trans hFoundFs
  | missing =>
    obtain ⟨rfl, rfl⟩ := Prod.mk.inj (Option.some.inj hStep)
    split
    · exact .stay (fun _ _ => trivial) (fun _ => ‹_›) trivial
    · exact .stay (fun _ _ => trivial) nofun trivial
  | dropping =>
    obtain ⟨rfl, rfl⟩ := Prod.mk.inj (Option.some.inj hStep)
    exact .remove hOk (fun _ => hFound rfl) trivial
  | cleaning cause =>
    obtain ⟨rfl, rfl⟩ := Prod.mk.inj (Option.some.inj hStep)
    refine .remove hOk nofun ?_
    cases cause with
    | extraction f =>
      cases f with
      | bundle e => trivial
      | escaped r => exact hProper
    | _ => trivial
  | returned => cases hStep
  | raised cause => cases hStep

theorem Right.init : Right archive .init := ⟨nofun, nofun, nofun, nofun⟩

theorem Right.step (h : Right archive st) (hOk : Orderly archive st label) (hStep : st.step archive label = some fin) :
    Right archive fin ∧ ∀ tree, st.shared.dest = some tree → fin.shared.dest = some tree := by
  obtain ⟨validate, rfl, rfl⟩ | ⟨n, sys, call, shared, place, rfl, hCall, hPlace, rfl⟩ := step_cases hStep
  · have hKept {m : Nat} {call : Call α} (hm : st.calls[m]? = some call) :
        (st.calls ++ [⟨validate, .entering⟩])[m]? = some call :=
      (List.getElem?_append_left (List.getElem?_eq_some_iff.mp hm).1).trans hm
    refine ⟨⟨fun n fs hGet => ?_, fun tree hTree => ?_, fun call hMem => ?_, fun call hMem => ?_⟩, fun _ hTree => hTree⟩
    · obtain ⟨call, hCall, hHolds⟩ := h.temps n fs hGet
      exact ⟨call, hKept hCall, hHolds⟩
    · obtain ⟨hFull, call, hCall, hAccepts⟩ := h.dest tree hTree
      exact ⟨hFull, call, hKept hCall, hAccepts⟩
    · obtain hOld | hNew := List.mem_append.mp hMem
      · exact h.found call hOld
      · rw [List.mem_singleton.mp hNew]
        nofun
    · obtain hOld | hNew := List.mem_append.mp hMem
      · exact h.proper call hOld
      · rw [List.mem_singleton.mp hNew]
        trivial
  · have hMem : call ∈ st.calls := List.mem_of_getElem? hCall
    have hOwn (fs : Fs (List α)) (hGet : get st.shared.temps n = some fs) : call.place.holds archive call.validate fs := by
      obtain ⟨c, hc, hHolds⟩ := h.temps n fs hGet
      obtain rfl := Option.some.inj (hCall.symm.trans hc)
      exact hHolds
    have hMoves := place_moves hOwn (h.found call hMem) (h.proper call hMem) (hOk call hCall) hPlace
    have hLess := (List.getElem?_eq_some_iff.mp hCall).1
    have hSelf : (st.calls.set n { call with place })[n]? = some { call with place } := List.getElem?_set_self hLess
    have hStays (tree : Tree α) (hTree : st.shared.dest = some tree) : shared.dest = some tree := by
      obtain hSame | ⟨hNone, -⟩ := hMoves.dest
      · exact hSame.trans hTree
      · cases hNone.symm.trans hTree
    refine ⟨⟨fun m fs hGet => ?_, fun tree hTree => ?_, fun c hc hFound => ?_, fun c hc => ?_⟩, hStays⟩
    · rcases eq_or_ne m n with rfl | hNe
      · exact ⟨_, hSelf, hMoves.own fs hGet⟩
      · obtain ⟨c, hc, hHolds⟩ := h.temps m fs ((hMoves.others m hNe).symm.trans hGet)
        exact ⟨c, (List.getElem?_set_ne hNe.symm).trans hc, hHolds⟩
    · obtain hSame | ⟨-, fs, hNew, hFull, hAccepts⟩ := hMoves.dest
      · obtain ⟨hFull, maker, hMaker, hAccepts⟩ := h.dest tree (hSame.symm.trans hTree)
        refine ⟨hFull, ?_⟩
        rcases eq_or_ne tree.maker n with hEq | hNe
        · rw [hEq] at hMaker ⊢
          obtain rfl := Option.some.inj (hCall.symm.trans hMaker)
          exact ⟨_, hSelf, hAccepts⟩
        · exact ⟨maker, (List.getElem?_set_ne hNe.symm).trans hMaker, hAccepts⟩
      · obtain rfl := Option.some.inj (hNew.symm.trans hTree)
        exact ⟨hFull, _, hSelf, hAccepts⟩
    · obtain hOld | rfl := List.mem_or_eq_of_mem_set hc
      · obtain ⟨tree, hTree⟩ := Option.isSome_iff_exists.mp (h.found c hOld hFound)
        rw [hStays tree hTree]
        rfl
      · exact hMoves.found hFound
    · obtain hOld | rfl := List.mem_or_eq_of_mem_set hc
      · exact h.proper c hOld
      · exact hMoves.proper

/-! ## All calls -/

/-- A call that returned finds a full extraction that passed its maker's validation. A call that ended has left no
temporary directory, and one that raised has not raised what the zip reader did. -/
structure Kept (archive : Archive α) (st : State α) : Prop where
  returned : ∀ call ∈ st.calls, call.place = .returned → ∃ tree, st.shared.dest = some tree ∧ Full archive tree.fs ∧
    ∃ maker, st.calls[tree.maker]? = some maker ∧ Accepts maker.validate tree.fs
  clean : ∀ n call, st.calls[n]? = some call → (call.place = .returned ∨ ∃ cause, call.place = .raised cause) →
    get st.shared.temps n = none
  proper : ∀ call ∈ st.calls, ∀ r, call.place ≠ .raised (.extraction (.escaped r))

theorem Right.kept (h : Right archive st) : Kept archive st := by
  constructor
  · intro call hMem hReturned
    obtain ⟨tree, hTree⟩ := Option.isSome_iff_exists.mp (h.found call hMem (by rw [hReturned]; rfl))
    exact ⟨tree, hTree, h.dest tree hTree⟩
  · intro n call hCall hEnded
    by_contra hSome
    obtain ⟨fs, hGet⟩ := Option.ne_none_iff_exists'.mp hSome
    obtain ⟨c, hc, hHolds⟩ := h.temps n fs hGet
    obtain rfl := Option.some.inj (hCall.symm.trans hc)
    obtain hPlace | ⟨cause, hPlace⟩ := hEnded
    · rw [hPlace] at hHolds
      exact hHolds
    · rw [hPlace] at hHolds
      exact hHolds
  · intro call hMem r hPlace
    have hProper := h.proper call hMem
    rw [hPlace] at hProper
    exact hProper

/-- An extraction extracts all or rejects just when it catches every exception. In every run of orderly steps a call
returns the one full and valid extraction, leaves no copy behind, and what one has returned stays. -/
theorem bundle_complete_or_absent (archive : Archive α) :
    (∀ env dest (fs : Fs (List α)), Stands dest fs →
      (ExtractsOrRejects env dest fs archive ↔ Caught env dest fs archive)) ∧
    ∀ mid fin, ReachesWhile (State.step archive) (Orderly archive) .init mid →
      ReachesWhile (State.step archive) (Orderly archive) mid fin →
      Kept archive fin ∧ ∀ call ∈ mid.calls, call.place = .returned → fin.shared.dest = mid.shared.dest := by
  refine ⟨fun env dest fs hStands => extracts_iff hStands archive, fun mid fin hMid hFin => ?_⟩
  have hKeeps {st fin : State α} (tree : Option (Tree α)) (hRun : ReachesWhile (State.step archive) (Orderly archive) st fin)
      (hStart : Right archive st ∧ ∀ t, tree = some t → st.shared.dest = some t) :
      Right archive fin ∧ ∀ t, tree = some t → fin.shared.dest = some t := by
    refine hRun.keeps (P := fun s => Right archive s ∧ ∀ t, tree = some t → s.shared.dest = some t)
      (fun before after label hBefore hOk hStep => ?_) hStart
    obtain ⟨hRight, hStays⟩ := hBefore.1.step hOk hStep
    exact ⟨hRight, fun t ht => hStays t (hBefore.2 t ht)⟩
  have hRight := (hKeeps none hMid ⟨.init, nofun⟩).1
  obtain ⟨hRightFin, hSame⟩ := hKeeps mid.shared.dest hFin ⟨hRight, fun _ ht => ht⟩
  refine ⟨hRightFin.kept, fun call hMem hReturned => ?_⟩
  obtain ⟨tree, hTree, -⟩ := hRight.kept.returned call hMem hReturned
  rw [hTree]
  exact hSame tree hTree

def oneFile : Info Nat := ⟨['a'], false, 1, 1, none, [[7]], none⟩

theorem oneFile_caught : Caught ⟨fun _ => false, 1⟩ [] emptyDir (.ok [oneFile]) := by
  refine .inr ⟨?_, fun _ info hMem => ?_⟩
  · have hCourse := @extractEach_course Nat ⟨fun _ => false, 1⟩ [] [oneFile] ⟨emptyDir, 0⟩ (Nat.zero_le _)
    have hDone : extractEach ⟨fun _ => false, 1⟩ [] ⟨emptyDir, 0⟩ [oneFile] = (⟨⟨[([['a']], [7])], []⟩, 1⟩, .ok ()) := rfl
    rw [hDone] at hCourse
    cases hCourse with
    | done fin hThrough hEscapes => exact hEscapes
  · rw [List.mem_singleton.mp hMem]
    decide

/-- One file is extracted, and a second call gets the same directory. -/
theorem bundle_complete_or_absent_oneFile : ∃ mid fin : State Nat,
    (∃ call ∈ mid.calls, call.place = .returned) ∧ fin.calls.length = 2 ∧
      Kept (.ok [oneFile]) fin ∧ fin.shared.dest = mid.shared.dest ∧
      ExtractsOrRejects ⟨fun _ => false, 1⟩ [] emptyDir (.ok [oneFile]) := by
  let sys : Sys := ⟨⟨fun _ => false, 1⟩, false, true⟩
  let fs : Fs (List Nat) := ⟨[([['a']], [7])], []⟩
  let first (temps : List (Nat × Fs (List Nat))) (place : Place) : State Nat := ⟨⟨none, temps⟩, [⟨none, place⟩]⟩
  let mid : State Nat := ⟨⟨some ⟨0, fs⟩, []⟩, [⟨none, .returned⟩]⟩
  let second (place : Place) : State Nat := ⟨⟨some ⟨0, fs⟩, []⟩, [⟨none, .returned⟩, ⟨none, place⟩]⟩
  let Run := ReachesWhile (State.step (.ok [oneFile])) (Orderly (.ok [oneFile]))
  have hCall {a b : State Nat} (h : a.step (.ok [oneFile]) (.call none) = some b) : Run a b :=
    @ReachesWhile.tail _ _ _ _ _ _ _ (.call none) (.refl a) trivial h
  have hStep {a b : State Nat} (n : Nat) (hOk : Orderly (.ok [oneFile]) a (.step n sys))
      (h : a.step (.ok [oneFile]) (.step n sys) = some b) : Run a b :=
    (ReachesWhile.refl a).tail hOk h
  have hEnter : Run .init (first [] .checking) := by
    refine (hCall rfl).trans (hStep 0 (fun call h => ?_) rfl)
    cases h
    trivial
  have hMake : Run (first [] .checking) (first [(0, emptyDir)] .extracting) := by
    refine (hStep 0 (fun call h => ?_) rfl).trans (hStep 0 (fun call h => ?_) rfl)
    · cases h
      trivial
    · cases h
      trivial
  have hExtract : Run (first [(0, emptyDir)] .extracting) (first [(0, fs)] .validating) := by
    refine hStep 0 (fun call h => ?_) rfl
    cases h
    exact oneFile_caught
  have hRename : Run (first [(0, fs)] .validating) mid := by
    refine (hStep 0 (fun call h => ?_) rfl).trans (hStep 0 (fun call h => ?_) rfl)
    · cases h
      trivial
    · cases h
      nofun
  have hSecond : Run mid (second .returned) := by
    refine (hCall rfl).trans ((hStep 1 (fun call h => ?_) rfl).trans (hStep 1 (fun call h => ?_) rfl))
    · cases h
      trivial
    · cases h
      trivial
  have hMid : Run .init mid := ((hEnter.trans hMake).trans hExtract).trans hRename
  obtain ⟨hExtracts, hRuns⟩ := bundle_complete_or_absent (.ok [oneFile])
  obtain ⟨hKept, hSame⟩ := hRuns mid (second .returned) hMid hSecond
  refine ⟨mid, second .returned, ⟨_, List.mem_singleton_self _, rfl⟩, rfl, hKept, ?_, ?_⟩
  · exact hSame _ (List.mem_singleton_self _) rfl
  · exact (hExtracts sys.env [] emptyDir stands_emptyDir).mpr oneFile_caught

/-- Opening an encrypted member raises, and that is let go. -/
theorem encrypted_escapes : ¬∀ env dest (fs : Fs (List Nat)) archive, Stands dest fs →
    ExtractsOrRejects env dest fs archive := by
  intro h
  let raised : Raised := ⟨.runtimeError, "File 'a' is encrypted, password required for extraction"⟩
  let info : Info Nat := ⟨['a'], false, 1, 13, some raised, [], none⟩
  have hEscaped : (extractBundle ⟨fun _ => false, 1⟩ [] emptyDir (.ok [info])).2 = .error (.escaped raised) := rfl
  obtain ⟨-, hExtracts⟩ := h ⟨fun _ => false, 1⟩ [] emptyDir (.ok [info]) stands_emptyDir
  rw [hEscaped] at hExtracts
  exact hExtracts

end Bajutsu.Serve.Materialize
