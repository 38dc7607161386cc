import Bajutsu.Serve.Orgs

/-!
# Seeds and administrators

Once an administrator has set a roster, a seed leaves it alone, unless the administrator's commit came
between the seed's read and the seed's commit.
-/

namespace Bajutsu.Serve.Orgs

open Interleaving

theorem orgs_exec : orgs.exec = exec := rfl

/-- The organisation's row is past its cutover. -/
def Marked (rows : Rows) (id : String) : Prop :=
  ∃ row, rows.org id = some row ∧ row.membershipSeededAt.isSome = true

theorem insert_org (row : Org) (rows : Rows) (id : String) :
    (rows.insert row).1.org id = rows.org id ∨ rows.org id = none := by
  rw [Rows.insert]
  split
  · exact .inl rfl
  · rcases @Table.insert_cases _ _ _ Org.id row rows with ⟨hInsert, -⟩ | ⟨hInsert, hFree⟩
    · rw [hInsert]
      exact .inl rfl
    · by_cases hId : row.id = id
      · subst hId
        exact .inr hFree
      · refine .inl ?_
        rw [hInsert, Rows.org, Table.find_append_single, if_neg hId]
        exact Option.or_none

theorem keyed_insert {rows : Rows} (h : Table.Keyed Org.id rows) (row : Org) :
    Table.Keyed Org.id (rows.insert row).1 := by
  rw [Rows.insert]
  split
  · exact h
  · exact Table.keyed_insert h row

theorem Changes.write_id (changes : Changes) (row : Org) : (changes.write row).id = row.id := rfl

/-- What a statement does to an organisation's row: nothing, insert it, or write the columns of a commit. -/
theorem exec_org (s : Statement) (now : Int) (rows : Rows) (id : String) :
    (exec s now rows).1.org id = rows.org id ∨ rows.org id = none ∨
      ∃ changes row, s = .commit id changes ∧ rows.org id = some row ∧
        (exec s now rows).1.org id = some (changes.write row) := by
  cases s with
  | get id' => exact .inl rfl
  | insert row => exact (insert_org row rows id).imp_right .inl
  | commit id' changes =>
    by_cases hId : id' = id
    · subst hId
      cases hRow : rows.org id' with
      | none => exact .inr (.inl rfl)
      | some row =>
        refine .inr (.inr ⟨changes, row, rfl, rfl, ?_⟩)
        have hKey : row.id = id' := Table.find_key hRow
        have hFind := @Table.find_update _ _ _ Org.id (fun row => row.id = id' && true) changes.write rows
          changes.write_id id'
        rw [show Table.find Org.id rows id' = some row from hRow] at hFind
        exact hFind.trans (by simp [hKey])
    · exact .inl (Table.find_updateOne_ne changes.write_id (Ne.symm hId) rows)

theorem Changes.write_marked (changes : Changes) {row : Org} (h : row.membershipSeededAt.isSome = true) :
    (changes.write row).membershipSeededAt.isSome = true := by
  change (changes.membershipSeededAt.or row.membershipSeededAt).isSome = true
  cases changes.membershipSeededAt with
  | none => exact h
  | some seededAt => rfl

theorem Marked.exec {rows : Rows} {id : String} (h : Marked rows id) (s : Statement) (now : Int) :
    Marked (exec s now rows).1 id := by
  obtain ⟨row, hRow, hSeeded⟩ := h
  rcases exec_org s now rows id with hSame | hNone | ⟨changes, row', -, hRow', hNext⟩
  · exact ⟨row, hSame.trans hRow, hSeeded⟩
  · rw [hRow] at hNone
    cases hNone
  · obtain rfl := Option.some.inj (hRow.symm.trans hRow')
    exact ⟨_, hNext, changes.write_marked hSeeded⟩

theorem keyed_exec (s : Statement) (now : Int) {rows : Rows} (h : Table.Keyed Org.id rows) :
    Table.Keyed Org.id (exec s now rows).1 := by
  cases s with
  | get id => exact h
  | insert row => exact keyed_insert h row
  | commit id changes => exact Table.keyed_update h changes.write_id

/-- The event read a row past its cutover, or marked the row. -/
def marks (id : String) : Event Statement Reply Int → Bool
  | ⟨_, _, .get id', read⟩ =>
    let read : Int × Option Org := read
    id' = id && read.2.any fun row => row.membershipSeededAt.isSome
  | ⟨_, _, .commit id' changes, count⟩ =>
    let count : Nat := count
    id' = id && count = 1 && changes.membershipSeededAt.isSome
  | _ => false

theorem marked_of_marks {rows : Rows} (hKeyed : Table.Keyed Org.id rows) {id : String} (thread : Nat)
    (s : Statement) (now : Int) (h : marks id ⟨thread, now, s, (exec s now rows).2⟩ = true) :
    Marked (exec s now rows).1 id := by
  cases s with
  | get id' =>
    simp only [marks, exec, Bool.and_eq_true, decide_eq_true_eq] at h
    obtain ⟨rfl, hRow⟩ := h
    obtain ⟨row, hRow, hSeeded⟩ := (Option.any_eq_true ..).mp hRow
    exact ⟨row, hRow, hSeeded⟩
  | insert row => cases h
  | commit id' changes =>
    simp only [marks, Bool.and_eq_true, decide_eq_true_eq] at h
    obtain ⟨⟨rfl, hCount⟩, hSeeded⟩ := h
    rcases @Table.updateOne_cases _ _ _ Org.id (fun _ => true) changes.write rows hKeyed changes.write_id id'
      with ⟨row, -, -, hFind, -⟩ | ⟨-, -, hZero⟩
    · refine ⟨_, hFind, ?_⟩
      obtain ⟨seededAt, hAt⟩ := Option.isSome_iff_exists.mp hSeeded
      rw [Changes.write, hAt]
      rfl
    · rw [exec, hZero] at hCount
      cases hCount

theorem Reaches.marked {st : System} (h : orgs.Reaches (.init []) st) {id : String}
    {event : Event Statement Reply Int} (hMem : event ∈ st.history) (hMarks : marks id event = true) :
    Marked st.shared id := by
  have hAll : Table.Keyed Org.id st.shared ∧
      ∀ event ∈ st.history, marks id event = true → Marked st.shared id := by
    refine @Machine.Reaches.logged _ _ _ _ _ _ orgs (fun rows events => Table.Keyed Org.id rows ∧
      ∀ event ∈ events, marks id event = true → Marked rows id) ?_ _ _ h
      ⟨List.nodup_nil, fun _ hMem => nomatch hMem⟩
    rintro thread s now rows events ⟨hKeyed, hEvents⟩
    refine ⟨keyed_exec s now hKeyed, fun event hMem hMarks => ?_⟩
    rcases List.mem_append.mp hMem with hMem | hMem
    · exact (hEvents event hMem hMarks).exec s now
    · rw [List.mem_singleton.mp hMem] at hMarks
      exact marked_of_marks hKeyed thread s now hMarks
  exact hAll.2 event hMem hMarks

/-! ## The calls -/

theorem drives_save {id : String} {changes : Changes} {events : List (Event Statement Reply Int)}
    (h : Machine.Drives orgs (save id changes) events (.ret (.returned true))) :
    ∃ thread now, events = [⟨thread, now, .commit id changes, (1 : Nat)⟩] := by
  obtain ⟨thread, now, (count : Nat), later, rfl, hRest⟩ := drives_stmt h
  obtain ⟨hRet, rfl⟩ := drives_ret hRest
  split at hRet
  · rename_i hCount
    subst hCount
    exact ⟨thread, now, rfl⟩
  · cases hRet

theorem Reaches.drives {st : System} (h : orgs.Reaches (.init []) st) {thread : Nat} {call : Call}
    {at_ : Program} (hThread : st.threads[thread]? = some (call, at_)) :
    Machine.Drives orgs (program call) (Machine.eventsOf thread st.history) at_ :=
  (h.sound (Machine.Sound.init [])).drives thread call at_ hThread

/-- An administrator's call has returned true. -/
def SetDone (st : System) (id : String) : Prop :=
  ∃ thread membership, Returned st thread (.setOrgMembership id membership) (.returned true)

theorem SetDone.marked {st : System} {id : String} (hDone : SetDone st id)
    (h : orgs.Reaches (.init []) st) : Marked st.shared id := by
  obtain ⟨thread, membership, hReturned⟩ := hDone
  obtain ⟨thread', now, (read : Int × Option Org), later, hEvents, hRest⟩ := drives_stmt (Reaches.drives h hReturned)
  have hMem : ∀ event ∈ Machine.eventsOf thread st.history, event ∈ st.history :=
    fun event hEvent => List.mem_of_mem_filter hEvent
  rw [hEvents] at hMem
  obtain ⟨time, row⟩ := read
  cases row with
  | none =>
    obtain ⟨hRet, -⟩ := drives_ret hRest
    cases hRet
  | some row =>
    simp only at hRest
    split at hRest
    · obtain ⟨hRet, -⟩ := drives_ret hRest
      cases hRet
    · obtain ⟨thread'', now', rfl⟩ := drives_save hRest
      cases hSeeded : row.membershipSeededAt with
      | some seededAt =>
        apply Reaches.marked h (hMem _ List.mem_cons_self)
        simp [marks, hSeeded]
      | none =>
        apply Reaches.marked h (hMem _ (List.mem_cons_of_mem _ List.mem_cons_self))
        simp [marks, hSeeded, Membership.changes]

/-- A seed stands between its read of the row and its commit. -/
def Seeding (st : System) (id : String) : Prop :=
  ∃ (thread : Nat) (slug name : String) (membership : Membership) (changes : Changes)
      (rest : Reply (.commit id changes) → Program),
    st.threads[thread]? = some (.seedOrgMembership id slug name membership, .stmt (.commit id changes) rest)

/-- The step is the commit of an administrator's call. -/
def SetCommits (id : String) (st : System) (label : Label Int Call) : Prop :=
  ∃ (thread : Nat) (now : Int) (membership : Membership) (changes : Changes)
      (rest : Reply (.commit id changes) → Program), label = .run thread now ∧
    st.threads[thread]? = some (.setOrgMembership id membership, .stmt (.commit id changes) rest)

/-- No administrator's commit comes between a seed's read and its commit. -/
def Apart (id : String) (st : System) (label : Label Int Call) : Prop :=
  SetCommits id st label → ¬Seeding st id

/-- The places of a seed. -/
def SeedPlace (id slug name : String) (membership : Membership) (p : Program) : Prop :=
  p = seedOrgMembership id slug name membership ∨
    (∃ seededAt, p = seedInsert id slug name membership seededAt) ∨
    (∃ seededAt, p = seedConflict id membership seededAt) ∨ (∃ changes, p = save id changes) ∨
    ∃ result, p = .ret result

theorem seedPlace_next {id slug name : String} {membership : Membership} (p : Program) (s : Statement)
    (rest : Reply s → Program) (reply : Reply s) (hPlace : SeedPlace id slug name membership p)
    (hNext : orgs.next p = some ⟨s, rest⟩) : SeedPlace id slug name membership (rest reply) := by
  rcases hPlace with rfl | ⟨seededAt, rfl⟩ | ⟨seededAt, rfl⟩ | ⟨changes, rfl⟩ | ⟨result, rfl⟩
  · cases hNext
    obtain ⟨now, row⟩ := reply
    cases row with
    | none => exact .inr (.inl ⟨now, rfl⟩)
    | some row =>
      simp only
      split
      · exact .inr (.inr (.inr (.inr ⟨_, rfl⟩)))
      · exact .inr (.inr (.inr (.inl ⟨_, rfl⟩)))
  · cases hNext
    cases reply with
    | true => exact .inr (.inr (.inr (.inr ⟨_, rfl⟩)))
    | false => exact .inr (.inr (.inl ⟨seededAt, rfl⟩))
  · cases hNext
    obtain ⟨now, row⟩ := reply
    cases row with
    | none => exact .inr (.inr (.inr (.inr ⟨_, rfl⟩)))
    | some row =>
      simp only
      split
      · exact .inr (.inr (.inr (.inr ⟨_, rfl⟩)))
      · exact .inr (.inr (.inr (.inl ⟨_, rfl⟩)))
  · cases hNext
    exact .inr (.inr (.inr (.inr ⟨_, rfl⟩)))
  · cases hNext

theorem not_settled {row : Org} (h : ¬row.settled = true) : row.membershipSeededAt = none := by
  simp only [Org.settled, Bool.or_eq_true, not_or, Option.not_isSome_iff_eq_none] at h
  exact h.1

/-- A seed comes to its commit by reading a row that is not past its cutover. -/
theorem seed_reads {id slug name : String} {membership : Membership} {p : Program} {s : Statement}
    {rest : Reply s → Program} {now : Int} {rows : Rows} {changes : Changes}
    {rest' : Reply (.commit id changes) → Program} (hPlace : SeedPlace id slug name membership p)
    (hNext : orgs.next p = some ⟨s, rest⟩)
    (hRest : rest (exec s now rows).2 = .stmt (.commit id changes) rest') :
    ∃ row, rows.org id = some row ∧ row.membershipSeededAt = none := by
  rcases hPlace with rfl | ⟨seededAt, rfl⟩ | ⟨seededAt, rfl⟩ | ⟨changes, rfl⟩ | ⟨result, rfl⟩
  · cases hNext
    simp only [exec] at hRest
    cases hRow : rows.org id with
    | none =>
      rw [hRow] at hRest
      cases hRest
    | some row =>
      rw [hRow] at hRest
      simp only at hRest
      split at hRest
      · cases hRest
      · rename_i hSettled
        exact ⟨row, rfl, not_settled hSettled⟩
  · cases hNext
    simp only at hRest
    split at hRest
    · cases hRest
    · cases hRest
  · cases hNext
    simp only [exec] at hRest
    cases hRow : rows.org id with
    | none =>
      rw [hRow] at hRest
      cases hRest
    | some row =>
      rw [hRow] at hRest
      simp only at hRest
      split at hRest
      · cases hRest
      · rename_i hSettled
        exact ⟨row, rfl, not_settled hSettled⟩
  · cases hNext
    cases hRest
  · cases hNext

theorem seed_place {st : System} (h : orgs.Reaches (.init []) st) {id slug name : String}
    {membership : Membership} {thread : Nat} {p : Program}
    (hThread : st.threads[thread]? = some (.seedOrgMembership id slug name membership, p)) :
    SeedPlace id slug name membership p :=
  (Reaches.drives h hThread).place seedPlace_next (.inl rfl)

theorem set_place {st : System} (h : orgs.Reaches (.init []) st) {id : String} {membership : Membership}
    {thread : Nat} {p : Program} (hThread : st.threads[thread]? = some (.setOrgMembership id membership, p)) :
    p = setOrgMembership id membership ∨ (∃ changes, p = save id changes) ∨ ∃ result, p = .ret result := by
  rcases drives_stmt_cases (Reaches.drives h hThread) with ⟨rfl, -⟩ | ⟨_, _, (read : Int × Option Org), _, -, hRest⟩
  · exact .inl rfl
  · obtain ⟨now, row⟩ := read
    cases row with
    | none => exact .inr (.inr ⟨_, (drives_ret hRest).1⟩)
    | some row =>
      simp only at hRest
      split at hRest
      · exact .inr (.inr ⟨_, (drives_ret hRest).1⟩)
      · rcases drives_stmt_cases hRest with ⟨rfl, -⟩ | ⟨_, _, _, _, -, hLast⟩
        · exact .inr (.inl ⟨_, rfl⟩)
        · exact .inr (.inr ⟨_, (drives_ret hLast).1⟩)

theorem SetDone.of_step {st fin : System} {id : String} (hDone : SetDone fin id)
    (h : orgs.Reaches (.init []) st) {label : Label Int Call} (hStep : orgs.step st label = some fin) :
    SetDone st id ∨ SetCommits id st label := by
  obtain ⟨thread, membership, hReturned⟩ := hDone
  rcases Machine.step_thread hStep hReturned with hSame | ⟨-, hStart⟩ | ⟨now, p, s, rest, rfl, hOld, hNext, hRet⟩
  · exact .inl ⟨thread, membership, hSame⟩
  · cases hStart
  · rcases set_place h hOld with rfl | ⟨changes, rfl⟩ | ⟨result, rfl⟩
    · cases hNext
      simp only [orgs_exec, exec] at hRet
      split at hRet
      · cases hRet
      · split at hRet
        · cases hRet
        · cases hRet
    · exact .inr ⟨thread, now, membership, changes, _, rfl, hOld⟩
    · cases hNext

theorem Seeding.of_step {st fin : System} {id : String} (hSeeding : Seeding fin id)
    (h : orgs.Reaches (.init []) st) {label : Label Int Call} (hStep : orgs.step st label = some fin) :
    Seeding st id ∨ ∃ thread now slug name membership p, label = .run thread now ∧
      st.threads[thread]? = some (.seedOrgMembership id slug name membership, p) ∧
      ¬Marked st.shared id := by
  obtain ⟨thread, slug, name, membership, changes, rest, hThread⟩ := hSeeding
  rcases Machine.step_thread hStep hThread with hSame | ⟨-, hStart⟩ | ⟨now, p, s, rest', rfl, hOld, hNext, hRest⟩
  · exact .inl ⟨thread, slug, name, membership, changes, rest, hSame⟩
  · cases hStart
  · obtain ⟨row, hRow, hNone⟩ := seed_reads (seed_place h hOld) hNext hRest.symm
    refine .inr ⟨thread, now, slug, name, membership, p, rfl, hOld, ?_⟩
    rintro ⟨row', hRow', hSeeded⟩
    obtain rfl := Option.some.inj (hRow.symm.trans hRow')
    rw [hNone] at hSeeded
    cases hSeeded

/-- When every commit of an administrator comes apart from the seeds, no seed is under way after one. -/
theorem SetDone.not_seeding {st : System} {id : String} (hDone : SetDone st id)
    (h : orgs.ReachesWhile (Apart id) (.init []) st) : ¬Seeding st id := by
  refine @Machine.ReachesWhile.keeps _ _ _ _ _ _ orgs (Apart id) (fun st => SetDone st id → ¬Seeding st id)
    _ _ ?_ h ?_ hDone
  · intro st fin label hReaches hKept hApart hStep hDone hSeeding
    have hBefore : ¬Seeding st id := by
      rcases hDone.of_step hReaches hStep with hOld | hCommits
      · exact hKept hOld
      · exact hApart hCommits
    obtain ⟨thread, now, slug, name, membership, p, rfl, hThread, hNotMarked⟩ :=
      (hSeeding.of_step hReaches hStep).resolve_left hBefore
    rcases hDone.of_step hReaches hStep with hOld | ⟨_, _, _, _, _, hLabel, hSet⟩
    · exact hNotMarked (hOld.marked hReaches)
    · cases hLabel
      cases hThread.symm.trans hSet
  · rintro ⟨_, _, hReturned⟩
    cases hReturned

/-! ## What a step does to the roster -/

/-- What a call may commit. -/
def Call.Commits (id : String) (changes : Changes) : Call → Prop
  | .setOrgMembership id' _ => id' = id
  | .seedOrgMembership id' _ _ _ => id' = id
  | .softDeleteOrg _ _ => changes.roster = .empty
  | _ => False

theorem save_only {Q : Statement → Prop} {id : String} {changes : Changes} (h : Q (.commit id changes)) :
    (save id changes).Only Q := ⟨h, fun _ => trivial⟩

theorem program_only (call : Call) :
    (program call).Only fun s => ∀ id changes, s = .commit id changes → call.Commits id changes := by
  cases call with
  | ensureOrg id slug name =>
    refine ⟨(fun _ _ h => nomatch h), fun (read : Int × Option Org) => ?_⟩
    obtain ⟨now, row⟩ := read
    cases row with
    | none => exact ⟨(fun _ _ h => nomatch h), fun _ => trivial⟩
    | some row => exact trivial
  | createOrg slug name =>
    refine ⟨(fun _ _ h => nomatch h), fun (read : Int × Option Org) => ?_⟩
    obtain ⟨now, row⟩ := read
    cases row with
    | none => exact ⟨(fun _ _ h => nomatch h), fun _ => trivial⟩
    | some row => exact trivial
  | setOrgMembership id membership =>
    refine ⟨(fun _ _ h => nomatch h), fun (read : Int × Option Org) => ?_⟩
    obtain ⟨now, row⟩ := read
    cases row with
    | none => exact trivial
    | some row =>
      simp only
      split
      · exact trivial
      · exact save_only fun _ _ hCommit => (Statement.commit.inj hCommit).1
  | seedOrgMembership id slug name membership =>
    have hSave (changes : Changes) : (save id changes).Only fun s =>
        ∀ id' changes', s = .commit id' changes' →
          (Call.seedOrgMembership id slug name membership).Commits id' changes' :=
      save_only fun _ _ hCommit => (Statement.commit.inj hCommit).1
    refine ⟨(fun _ _ h => nomatch h), fun (read : Int × Option Org) => ?_⟩
    obtain ⟨now, row⟩ := read
    cases row with
    | none =>
      refine ⟨(fun _ _ h => nomatch h), fun (inserted : Bool) => ?_⟩
      cases inserted with
      | true => exact trivial
      | false =>
        refine ⟨(fun _ _ h => nomatch h), fun (read : Int × Option Org) => ?_⟩
        obtain ⟨_, row⟩ := read
        cases row with
        | none => exact trivial
        | some row =>
          simp only
          split
          · exact trivial
          · exact hSave _
    | some row =>
      simp only
      split
      · exact trivial
      · exact hSave _
  | softDeleteOrg id at_ =>
    refine ⟨(fun _ _ h => nomatch h), fun (read : Int × Option Org) => ?_⟩
    obtain ⟨now, row⟩ := read
    cases row with
    | none => exact trivial
    | some row =>
      simp only
      split
      · exact trivial
      · refine save_only fun _ _ hCommit => ?_
        obtain ⟨-, rfl⟩ := Statement.commit.inj hCommit
        rfl

def Rows.roster (rows : Rows) (id : String) : Option Roster := (rows.org id).map Org.roster

/-- A step that is no administrator's commit leaves a roster that no seed is about to write. -/
theorem roster_step {st fin : System} (h : orgs.Reaches (.init []) st) {id : String}
    (hMarked : Marked st.shared id) (hSeeding : ¬Seeding st id) {label : Label Int Call}
    (hSet : ¬SetCommits id st label) (hStep : orgs.step st label = some fin) :
    fin.shared.roster id = st.shared.roster id := by
  rcases Machine.step_event hStep with ⟨c, -, rfl⟩ | ⟨thread, now, call, p, s, rest, rfl, hThread, hNext, rfl⟩
  · rfl
  · rw [orgs_exec]
    rcases exec_org s now st.shared id with hSame | hNone | ⟨changes, row, rfl, hRow, hWritten⟩
    · exact congrArg (Option.map Org.roster) hSame
    · obtain ⟨row, hRow, -⟩ := hMarked
      rw [hNone] at hRow
      cases hRow
    · cases p with
      | ret result => cases hNext
      | stmt s' rest' =>
        cases hNext
        have hOnly := ((program_only call).drives (Reaches.drives h hThread)).2
        have hCommits := hOnly.1 id changes rfl
        cases call with
        | setOrgMembership id' membership =>
          obtain rfl : id' = id := hCommits
          exact absurd ⟨thread, now, membership, changes, rest, rfl, hThread⟩ hSet
        | seedOrgMembership id' slug name membership =>
          obtain rfl : id' = id := hCommits
          exact absurd ⟨thread, slug, name, membership, changes, rest, hThread⟩ hSeeding
        | softDeleteOrg id' at_ =>
          have hEmpty : changes.roster = .empty := hCommits
          rw [Rows.roster, hWritten, Rows.roster, hRow]
          simp [Changes.write, hEmpty, Roster.empty]
        | ensureOrg => exact hCommits.elim
        | createOrg => exact hCommits.elim

theorem SetDone.step {st fin : System} {id : String} (hDone : SetDone st id) {label : Label Int Call}
    (hStep : orgs.step st label = some fin) : SetDone fin id := by
  obtain ⟨thread, membership, hReturned⟩ := hDone
  obtain ⟨p, hThread, hSame⟩ := ((Machine.Reaches.refl st).tail hStep).thread hReturned
  rw [hSame rfl] at hThread
  exact ⟨thread, membership, hThread⟩

/-- Once an administrator's call has returned true, in a run whose administrators' commits come apart from
the seeds, the roster is what the last of them left. -/
theorem seed_keeps_roster (id : String) {st fin : System}
    (h : orgs.ReachesWhile (Apart id) (.init []) st)
    (hDone : ∃ thread membership, Returned st thread (.setOrgMembership id membership) (.returned true))
    (hLater : orgs.ReachesWhile (fun mid label => ¬SetCommits id mid label) st fin) :
    fin.shared.roster id = st.shared.roster id := by
  have hAll : orgs.ReachesWhile (Apart id) (.init []) fin ∧ SetDone fin id ∧
      fin.shared.roster id = st.shared.roster id := by
    refine @Machine.ReachesWhile.keeps _ _ _ _ _ _ orgs _ (fun mid => orgs.ReachesWhile (Apart id) (.init []) mid ∧
      SetDone mid id ∧ mid.shared.roster id = st.shared.roster id) _ _ ?_ hLater ⟨h, hDone, rfl⟩
    rintro mid next label - ⟨hMid, hSet, hRoster⟩ hNot hStep
    refine ⟨hMid.tail (fun hCommits => absurd hCommits hNot) hStep, hSet.step hStep, ?_⟩
    rw [← hRoster]
    exact roster_step hMid.reaches (hSet.marked hMid.reaches) (hSet.not_seeding hMid) hNot hStep
  exact hAll.2.2

/-! ## A seed and an administrator -/

def mallory : Membership := ⟨["mallory"], [], [], [], some []⟩

def zoe : Membership := ⟨["zoe"], [], [], [], none⟩

/-- Where the run of these labels ends. -/
def after (st : System) (labels : List (Label Int Call)) : System := (orgs.run st labels).getD st

/-- A sign-in makes the row, and an administrator sets its roster. -/
def administers : List (Label Int Call) :=
  [.call (.ensureOrg "legacy" "legacy" "legacy"), .run 0 0, .run 0 0,
    .call (.setOrgMembership "legacy" zoe), .run 1 1, .run 1 1]

def administered : System := after (.init []) administers

def seedsLater : List (Label Int Call) :=
  [.call (.seedOrgMembership "legacy" "legacy" "legacy" mallory), .run 2 2]

/-- The administrator's call comes between a seed's read and its commit. -/
def raced : System :=
  after (.init []) [.call (.ensureOrg "legacy" "legacy" "legacy"), .run 0 0, .run 0 0,
    .call (.seedOrgMembership "legacy" "legacy" "legacy" mallory), .run 1 1,
    .call (.setOrgMembership "legacy" zoe), .run 2 2, .run 2 2]

theorem reaches_after {st : System} {labels : List (Label Int Call)}
    (h : (orgs.run st labels).isSome = true) : orgs.Reaches st (after st labels) := by
  obtain ⟨fin, hRun⟩ := Option.isSome_iff_exists.mp h
  rw [after, hRun]
  exact Machine.Reaches.of_run hRun

/-- The seed's commit overwrites the roster the administrator set. -/
theorem seed_overwrites_roster :
    ¬∀ (id : String) (st fin : System), orgs.Reaches (.init []) st →
      (∃ thread membership, Returned st thread (.setOrgMembership id membership) (.returned true)) →
      orgs.ReachesWhile (fun mid label => ¬SetCommits id mid label) st fin →
        fin.shared.roster id = st.shared.roster id := by
  intro hAll
  have hSeed : orgs.ReachesWhile (fun mid label => ¬SetCommits "legacy" mid label) raced
      (after raced [.run 1 3]) := by
    have hNot : ¬SetCommits "legacy" raced (.run 1 3) := by
      rintro ⟨thread, now, membership, changes, rest, hLabel, hThread⟩
      cases hLabel
      cases hThread
    exact (Machine.ReachesWhile.refl _).tail hNot rfl
  have hRoster := hAll "legacy" raced (after raced [.run 1 3]) (reaches_after rfl) ⟨2, zoe, rfl⟩ hSeed
  revert hRoster
  decide +kernel

def Call.seeds : Call → Bool
  | .seedOrgMembership .. => true
  | _ => false

def Call.sets : Call → Bool
  | .setOrgMembership .. => true
  | _ => false

/-- No seed has been called. -/
def noSeed (st : System) (_ : Label Int Call) : Bool := st.threads.all fun thread => !thread.1.seeds

/-- The step is none of an administrator's call. -/
def noSet (st : System) : Label Int Call → Bool
  | .call _ => true
  | .run thread _ => (st.threads[thread]?).all fun thread => !thread.1.sets

theorem apart_of_noSeed {id : String} (st : System) (label : Label Int Call) (h : noSeed st label = true) :
    Apart id st label := by
  rintro - ⟨thread, slug, name, membership, changes, rest, hThread⟩
  exact nomatch List.all_eq_true.mp h _ (List.mem_of_getElem? hThread)

theorem not_setCommits_of_noSet {id : String} (st : System) (label : Label Int Call)
    (h : noSet st label = true) : ¬SetCommits id st label := by
  rintro ⟨thread, now, membership, changes, rest, rfl, hThread⟩
  rw [noSet, hThread] at h
  cases h

theorem seed_keeps_roster_later :
    (after administered seedsLater).shared.roster "legacy" = administered.shared.roster "legacy" := by
  have hBefore : orgs.ReachesWhile (Apart "legacy") (.init []) administered :=
    @Machine.ReachesWhile.of_run _ _ _ _ _ _ orgs _ noSeed apart_of_noSeed administers _ _ rfl
  have hLater : orgs.ReachesWhile (fun mid label => ¬SetCommits "legacy" mid label) administered
      (after administered seedsLater) :=
    @Machine.ReachesWhile.of_run _ _ _ _ _ _ orgs _ noSet not_setCommits_of_noSet seedsLater _ _ rfl
  exact seed_keeps_roster "legacy" hBefore ⟨1, zoe, rfl⟩ hLater

end Bajutsu.Serve.Orgs
