import Bajutsu.Serve.Orgs

/-!
# Where a sign-in lands

Behind the exchange with GitHub a sign-in is admitted by the membership of some organisation or by a team of the
deployment's admins. With a database the login is then placed in an organisation, with a role there, and so are the
organisations it may switch to. Names of teams are compared in lower case.
-/

namespace Bajutsu.Serve.OauthPlacement

open Orgs

structure Identity where
  login : String
  orgs : List String
  teams : List String

structure OrgConfig where
  members : List String
  githubOrgs : List String
  githubTeams : List String
  editorTeams : List String

def OrgConfig.admittingTeams (config : OrgConfig) : List String := config.githubTeams ++ config.editorTeams

abbrev OrgMap := List (String × OrgConfig)

inductive Role where
  | viewer | editor | admin
  deriving DecidableEq

def defaultOrg : String := "default"

/-! ## The tables -/

structure User where
  id : String
  orgId : String
  githubLogin : String
  email : String
  role : Role
  /-- When the login picked the organisation, if it did. -/
  orgSelectedAt : Option Int

structure UserOrg where
  userId : String
  orgId : String
  role : Role

structure Repository where
  orgs : Rows
  users : List User
  userOrgs : List UserOrg

def toOrg (row : Org) : OrgConfig where
  members := row.roster.members.getD []
  githubOrgs := row.roster.githubOrgs.getD []
  githubTeams := row.roster.githubTeams.getD []
  editorTeams := row.roster.editorTeams.getD []

namespace Repository

def user (repo : Repository) (login : String) : Option User := Table.find User.id repo.users login

def listOrgs (repo : Repository) : Rows := repo.orgs.filter fun row => row.deletedAt.isNone

def getOrg (repo : Repository) (org : String) : Option Org := (repo.orgs.org org).filter fun row => row.deletedAt.isNone

/-- The organisation a login picked itself. -/
def userSelectedOrg (repo : Repository) (login : String) : Option String :=
  ((repo.user login).filter fun user => user.orgSelectedAt.isSome).map User.orgId

def ensureOrg (repo : Repository) (org : String) : Repository :=
  if (repo.orgs.org org).isSome then repo
  else { repo with orgs := (repo.orgs.insert ⟨org, org, org, .empty, none, none⟩).1 }

/-- A login that moves to another organisation has not picked that one. -/
def upsertUser (repo : Repository) (login org email : String) (role : Role) : Repository :=
  match repo.user login with
  | none => { repo with users := repo.users ++ [⟨login, org, login, email, role, none⟩] }
  | some _ =>
    { repo with
      users := repo.users.map fun user =>
        if user.id = login then
          { user with
            orgId := org
            githubLogin := login
            email
            role
            orgSelectedAt := if user.orgId ≠ org then none else user.orgSelectedAt }
        else user }

def setUserOrgs (repo : Repository) (login : String) (memberships : List (String × Role)) : Repository :=
  { repo with
    userOrgs := (repo.userOrgs.filter fun row => row.userId ≠ login) ++
      memberships.map fun membership => ⟨login, membership.1, membership.2⟩ }

/-- The role stored for a login in an organisation it may act as. -/
def membership (repo : Repository) (login org : String) : Option Role :=
  (repo.userOrgs.find? fun row => row.userId = login && row.orgId = org).map UserOrg.role

end Repository

def orgsFromDb (repo : Repository) : OrgMap := repo.listOrgs.map fun row => (row.id, toOrg row)

structure State where
  adminTeams : List String
  /-- The `orgs:` block of the bound configuration, empty where none could be loaded. -/
  configured : OrgMap
  repository : Option Repository

def State.orgModel (state : State) : OrgMap :=
  match state.repository with
  | some repo => orgsFromDb repo
  | none => state.configured

section SignIn

variable (lower : String → String)

def inTeams (teams wanted : List String) : Bool := teams.any fun team => lower team ∈ wanted.map lower

def inAdminTeam (teams adminTeams : List String) : Bool := inTeams lower teams adminTeams

def matchMembers (orgs : OrgMap) (identity : Identity) : List String :=
  (orgs.filter fun org => identity.login ∈ org.2.members).map Prod.fst

def matchGithubOrgs (orgs : OrgMap) (identity : Identity) : List String :=
  let matched := matchMembers orgs identity
  matched ++ (orgs.filter fun org => org.1 ∉ matched && identity.orgs.any (· ∈ org.2.githubOrgs)).map Prod.fst

def matchOrgs (orgs : OrgMap) (identity : Identity) : List String :=
  let matched := matchGithubOrgs orgs identity
  matched ++
    (orgs.filter fun org => org.1 ∉ matched && inTeams lower identity.teams org.2.admittingTeams).map Prod.fst

def identityMatchesOrg (orgs : OrgMap) (identity : Identity) : Bool := !(matchOrgs lower orgs identity).isEmpty

def preferredOrg (eligible : List String) : String := eligible.headD defaultOrg

def roleFor (teams editorTeams adminTeams : List String) : Role :=
  if inAdminTeam lower teams adminTeams then .admin
  else if inTeams lower teams editorTeams then .editor
  else .viewer

/-- An organisation that is not in the map has no editors. -/
def editorTeamsOf (orgs : OrgMap) (org : String) : List String :=
  match orgs.find? (·.1 = org) with
  | some found => found.2.editorTeams
  | none => []

def activeOrg (repo : Repository) (login : String) (eligible : List String) (isAdminTeamMember : Bool) : String :=
  match repo.userSelectedOrg login with
  | some picked =>
    if picked ∈ eligible || (isAdminTeamMember && (repo.getOrg picked).isSome) then picked else preferredOrg eligible
  | none => preferredOrg eligible

def place (state : State) (identity : Identity) (repo : Repository) : Repository :=
  let orgs := state.orgModel
  let eligible := matchOrgs lower orgs identity
  let role (org : String) := roleFor lower identity.teams (editorTeamsOf orgs org) state.adminTeams
  let memberships := eligible.map fun candidate => (candidate, role candidate)
  let org := activeOrg repo identity.login eligible (inAdminTeam lower identity.teams state.adminTeams)
  let repo := repo.ensureOrg org
  let repo := repo.upsertUser identity.login org (identity.login ++ "@users.noreply.github.com") (role org)
  repo.setUserOrgs identity.login memberships

inductive Answer where
  | notAllowed
  | signedIn (state : State)

/-- `oauth_callback` from the identity on that the exchange gave. -/
def oauthCallback (state : State) (identity : Identity) : Answer :=
  if !identityMatchesOrg lower state.orgModel identity && !inAdminTeam lower identity.teams state.adminTeams then .notAllowed
  else .signedIn { state with repository := state.repository.map (place lower state identity) }

/-- The organisation a login is in after a sign-in. -/
def Answer.placed (login : String) : Answer → Option String
  | notAllowed => none
  | signedIn state => (state.repository.bind fun repo => repo.user login).map User.orgId

end SignIn

/-! ## Eligibility -/

section Eligibility

variable (lower : String → String)

/-- The login, or one of its GitHub organisations, is listed. -/
def Lists (config : OrgConfig) (identity : Identity) : Prop :=
  identity.login ∈ config.members ∨ ∃ org ∈ identity.orgs, org ∈ config.githubOrgs

def Admits (config : OrgConfig) (identity : Identity) : Prop :=
  Lists config identity ∨ inTeams lower identity.teams config.admittingTeams = true

def Eligible (orgs : OrgMap) (identity : Identity) (org : String) : Prop :=
  ∃ config, (org, config) ∈ orgs ∧ Admits lower config identity

variable {lower} {orgs : OrgMap} {identity : Identity} {org : String}

theorem mem_matchMembers : org ∈ matchMembers orgs identity ↔ ∃ config, (org, config) ∈ orgs ∧ identity.login ∈ config.members := by
  simp [matchMembers]

theorem mem_matchGithubOrgs : org ∈ matchGithubOrgs orgs identity ↔ ∃ config, (org, config) ∈ orgs ∧ Lists config identity := by
  have hShared (config : OrgConfig) : identity.orgs.any (· ∈ config.githubOrgs) = true ↔
      ∃ shared ∈ identity.orgs, shared ∈ config.githubOrgs := by simp
  simp only [matchGithubOrgs, List.mem_append, List.mem_map, List.mem_filter, Bool.and_eq_true, decide_eq_true_eq, hShared]
  constructor
  · rintro (hMembers | ⟨⟨_, config⟩, ⟨hMem, -, hOrgs⟩, rfl⟩)
    · obtain ⟨config, hMem, hMember⟩ := mem_matchMembers.mp hMembers
      exact ⟨config, hMem, .inl hMember⟩
    · exact ⟨config, hMem, .inr hOrgs⟩
  · rintro ⟨config, hMem, hMember | hOrgs⟩
    · exact .inl (mem_matchMembers.mpr ⟨config, hMem, hMember⟩)
    · by_cases hMatched : org ∈ matchMembers orgs identity
      · exact .inl hMatched
      · exact .inr ⟨(org, config), ⟨hMem, hMatched, hOrgs⟩, rfl⟩

theorem mem_matchOrgs : org ∈ matchOrgs lower orgs identity ↔ Eligible lower orgs identity org := by
  simp only [matchOrgs, List.mem_append, List.mem_map, List.mem_filter, Bool.and_eq_true, decide_eq_true_eq]
  constructor
  · rintro (hListed | ⟨⟨_, config⟩, ⟨hMem, -, hTeams⟩, rfl⟩)
    · obtain ⟨config, hMem, hLists⟩ := mem_matchGithubOrgs.mp hListed
      exact ⟨config, hMem, .inl hLists⟩
    · exact ⟨config, hMem, .inr hTeams⟩
  · rintro ⟨config, hMem, hLists | hTeams⟩
    · exact .inl (mem_matchGithubOrgs.mpr ⟨config, hMem, hLists⟩)
    · by_cases hMatched : org ∈ matchGithubOrgs orgs identity
      · exact .inl hMatched
      · exact .inr ⟨(org, config), ⟨hMem, hMatched, hTeams⟩, rfl⟩

theorem identityMatchesOrg_iff : identityMatchesOrg lower orgs identity = true ↔ ∃ org, Eligible lower orgs identity org := by
  rw [identityMatchesOrg, Bool.not_eq_true', List.isEmpty_eq_false_iff_exists_mem]
  exact exists_congr fun _ => mem_matchOrgs

end Eligibility

/-! ## What a placement stores -/

section Placement

variable {lower : String → String} {repo : Repository} {login org email : String} {role : Role}

theorem user_upsertUser : ∃ user, (repo.upsertUser login org email role).user login = some user ∧ user.orgId = org ∧
    user.role = role := by
  rw [Repository.upsertUser]
  split
  · rename_i hNone
    refine ⟨⟨login, org, login, email, role, none⟩, ?_, rfl, rfl⟩
    have hAbsent : Table.find User.id repo.users login = none := hNone
    rw [Repository.user, Table.find_append_single, hAbsent, if_pos rfl]
    rfl
  · rename_i user hUser
    let moved (user : User) : User :=
      { user with
        orgId := org
        githubLogin := login
        email
        role
        orgSelectedAt := if user.orgId ≠ org then none else user.orgSelectedAt }
    have hFind : Table.find User.id repo.users login = some user := hUser
    have hKey (user : User) : User.id (moved user) = User.id user := rfl
    have hUsers : (repo.users.map fun user => if user.id = login then moved user else user) =
        (Table.update (fun user => decide (user.id = login)) moved repo.users).1 := by simp [Table.update]
    have hUpdate : Table.find User.id (repo.users.map fun user => if user.id = login then moved user else user) login =
        some (moved user) := by
      rw [hUsers, Table.find_update hKey login, hFind, Option.map_some, if_pos (decide_eq_true (Table.find_key hFind))]
    exact ⟨moved user, hUpdate, rfl, rfl⟩

theorem membership_setUserOrgs {eligible : List String} (roles : String → Role) (h : org ∈ eligible) :
    (repo.setUserOrgs login (eligible.map fun candidate => (candidate, roles candidate))).membership login org =
      some (roles org) := by
  have hOthers : (repo.userOrgs.filter fun row => row.userId ≠ login).find?
      (fun row => row.userId = login && row.orgId = org) = none := by
    rw [List.find?_eq_none]
    intro row hMem
    have hOther := of_decide_eq_true (List.mem_filter.mp hMem).2
    simp [hOther]
  rw [Repository.membership, Repository.setUserOrgs, List.find?_append, hOthers, Option.none_or, List.map_map]
  clear hOthers
  induction eligible with
  | nil => cases h
  | cons first eligible ih =>
    rw [List.map_cons, List.find?_cons]
    by_cases hFirst : first = org
    · rw [hFirst]
      simp
    · have hRest : org ∈ eligible := (List.mem_cons.mp h).resolve_left (Ne.symm hFirst)
      simpa [hFirst] using ih hRest

theorem activeOrg_cases (repo : Repository) (login : String) (eligible : List String) (isAdmin : Bool) :
    activeOrg repo login eligible isAdmin ∈ eligible ∨
      (isAdmin = true ∧ repo.userSelectedOrg login = some (activeOrg repo login eligible isAdmin) ∧
        (repo.getOrg (activeOrg repo login eligible isAdmin)).isSome = true) ∨
      (activeOrg repo login eligible isAdmin = defaultOrg ∧ eligible = []) := by
  have hPreferred : preferredOrg eligible ∈ eligible ∨ preferredOrg eligible = defaultOrg ∧ eligible = [] := by
    cases eligible with
    | nil => exact .inr ⟨rfl, rfl⟩
    | cons first eligible => exact .inl List.mem_cons_self
  rw [activeOrg]
  split
  · rename_i picked hPicked
    split
    · rename_i hHolds
      rcases Bool.or_eq_true_iff.mp hHolds with hEligible | hLive
      · exact .inl (of_decide_eq_true hEligible)
      · obtain ⟨hAdmin, hSome⟩ := Bool.and_eq_true_iff.mp hLive
        exact .inr (.inl ⟨hAdmin, hPicked, hSome⟩)
    · exact hPreferred.imp_right Or.inr
  · exact hPreferred.imp_right Or.inr

end Placement

/-! ## Adding a team -/

inductive TeamAxis where
  | githubTeams | editorTeams

def withTeam (axis : TeamAxis) (team : String) (row : Org) : Org :=
  match axis with
  | .githubTeams => { row with roster.githubTeams := some (row.roster.githubTeams.getD [] ++ [team]) }
  | .editorTeams => { row with roster.editorTeams := some (row.roster.editorTeams.getD [] ++ [team]) }

/-- The database with a team more in the row of one organisation. -/
def Repository.addTeam (repo : Repository) (org : String) (axis : TeamAxis) (team : String) : Repository :=
  { repo with orgs := repo.orgs.map fun row => if row.id = org then withTeam axis team row else row }

def State.addTeam (state : State) (org : String) (axis : TeamAxis) (team : String) : State :=
  { state with repository := state.repository.map fun repo => repo.addTeam org axis team }

section Teams

variable {orgs orgs' : OrgMap} {identity : Identity}

/-- Two entries of one organisation that differ in nothing but teams. -/
def SameLists (entry entry' : String × OrgConfig) : Prop :=
  entry.1 = entry'.1 ∧ entry.2.members = entry'.2.members ∧ entry.2.githubOrgs = entry'.2.githubOrgs

theorem filter_same (p : String × OrgConfig → Bool) (h : List.Forall₂ SameLists orgs orgs')
    (hSame : ∀ entry entry', SameLists entry entry' → p entry = p entry') :
    (orgs.filter p).map Prod.fst = (orgs'.filter p).map Prod.fst := by
  induction h with
  | nil => rfl
  | @cons entry entry' _ _ hHead hTail ih =>
    rw [List.filter_cons, List.filter_cons, hSame entry entry' hHead]
    split
    · rw [List.map_cons, List.map_cons, ih, hHead.1]
    · exact ih

theorem matchGithubOrgs_same (h : List.Forall₂ SameLists orgs orgs') :
    matchGithubOrgs orgs identity = matchGithubOrgs orgs' identity := by
  have hMembers : matchMembers orgs identity = matchMembers orgs' identity := by
    apply filter_same _ h
    rintro entry entry' ⟨-, hMembers, -⟩
    rw [hMembers]
  rw [matchGithubOrgs, matchGithubOrgs, hMembers]
  congr 1
  apply filter_same _ h
  rintro entry entry' ⟨hOrg, -, hGithubOrgs⟩
  rw [hOrg, hGithubOrgs]

theorem preferredOrg_same (lower : String → String) (h : List.Forall₂ SameLists orgs orgs')
    (hListed : matchGithubOrgs orgs identity ≠ []) :
    preferredOrg (matchOrgs lower orgs identity) = preferredOrg (matchOrgs lower orgs' identity) := by
  obtain ⟨first, rest, hCons⟩ := List.exists_cons_of_ne_nil hListed
  have hCons' : matchGithubOrgs orgs' identity = first :: rest := by rw [← matchGithubOrgs_same h, hCons]
  rw [matchOrgs, matchOrgs, hCons, hCons']
  rfl

theorem orgsFromDb_addTeam (repo : Repository) (org : String) (axis : TeamAxis) (team : String) :
    List.Forall₂ SameLists (orgsFromDb repo) (orgsFromDb (repo.addTeam org axis team)) := by
  have hRow (row : Org) : (if row.id = org then withTeam axis team row else row).deletedAt = row.deletedAt ∧
      SameLists (row.id, toOrg row) ((if row.id = org then withTeam axis team row else row).id,
        toOrg (if row.id = org then withTeam axis team row else row)) := by
    split
    · cases axis <;> exact ⟨rfl, rfl, rfl, rfl⟩
    · exact ⟨rfl, rfl, rfl, rfl⟩
  rw [orgsFromDb, orgsFromDb, Repository.listOrgs, Repository.listOrgs, Repository.addTeam]
  induction repo.orgs with
  | nil => exact List.Forall₂.nil
  | cons row rows ih =>
    obtain ⟨hDeleted, hSame⟩ := hRow row
    rw [List.map_cons, List.filter_cons, List.filter_cons, hDeleted]
    split
    · exact List.Forall₂.cons hSame ih
    · exact ih

end Teams

/-! ## Sign-ins -/

section Consistency

variable (lower : String → String) (state : State) (identity : Identity)

/-- The placed organisation and the role there, before and after the sign-in. -/
structure WellPlaced (before after : Repository) (user : User) : Prop where
  org : Eligible lower state.orgModel identity user.orgId ∨
    (inAdminTeam lower identity.teams state.adminTeams = true ∧
      before.userSelectedOrg identity.login = some user.orgId ∧ (before.getOrg user.orgId).isSome = true) ∨
    (user.orgId = defaultOrg ∧ inAdminTeam lower identity.teams state.adminTeams = true ∧
      ∀ org, ¬ Eligible lower state.orgModel identity org)
  role : Eligible lower state.orgModel identity user.orgId → after.membership identity.login user.orgId = some user.role

structure Consistent : Prop where
  admitted : (∃ after, oauthCallback lower state identity = .signedIn after) ↔
    (∃ org, Eligible lower state.orgModel identity org) ∨ inAdminTeam lower identity.teams state.adminTeams = true
  placed : ∀ before after, state.repository = some before → oauthCallback lower state identity = .signedIn after →
    ∃ repo user, after.repository = some repo ∧ repo.user identity.login = some user ∧
      WellPlaced lower state identity before repo user
  /-- A login that lost its organisation is in another one afterwards, or is refused. -/
  lost : ∀ before user, state.repository = some before → before.user identity.login = some user →
    inAdminTeam lower identity.teams state.adminTeams = false → ¬ Eligible lower state.orgModel identity user.orgId →
    (oauthCallback lower state identity).placed identity.login ≠ some user.orgId
  team : ∀ before org axis team, state.repository = some before → before.userSelectedOrg identity.login = none →
    (∃ other config, other ≠ org ∧ (other, config) ∈ state.orgModel ∧ Lists config identity) →
    (oauthCallback lower (state.addTeam org axis team) identity).placed identity.login =
      (oauthCallback lower state identity).placed identity.login

theorem oauthCallback_cases :
    (oauthCallback lower state identity = .notAllowed ∧ (∀ org, ¬ Eligible lower state.orgModel identity org) ∧
        inAdminTeam lower identity.teams state.adminTeams = false) ∨
      (oauthCallback lower state identity =
          .signedIn { state with repository := state.repository.map (place lower state identity) } ∧
        ((∃ org, Eligible lower state.orgModel identity org) ∨
          inAdminTeam lower identity.teams state.adminTeams = true)) := by
  rw [← identityMatchesOrg_iff, ← not_exists, ← identityMatchesOrg_iff, oauthCallback]
  cases identityMatchesOrg lower state.orgModel identity <;> cases inAdminTeam lower identity.teams state.adminTeams <;> simp

theorem user_place (repo : Repository) : ∃ user, (place lower state identity repo).user identity.login = some user ∧
    user.orgId = activeOrg repo identity.login (matchOrgs lower state.orgModel identity)
      (inAdminTeam lower identity.teams state.adminTeams) ∧
    user.role = roleFor lower identity.teams (editorTeamsOf state.orgModel user.orgId) state.adminTeams := by
  obtain ⟨user, hUser, hOrg, hRole⟩ := @user_upsertUser
    (repo.ensureOrg (activeOrg repo identity.login (matchOrgs lower state.orgModel identity)
      (inAdminTeam lower identity.teams state.adminTeams)))
    identity.login
    (activeOrg repo identity.login (matchOrgs lower state.orgModel identity)
      (inAdminTeam lower identity.teams state.adminTeams))
    (identity.login ++ "@users.noreply.github.com")
    (roleFor lower identity.teams (editorTeamsOf state.orgModel (activeOrg repo identity.login
      (matchOrgs lower state.orgModel identity) (inAdminTeam lower identity.teams state.adminTeams))) state.adminTeams)
  refine ⟨user, hUser, hOrg, ?_⟩
  rw [hRole, hOrg]

variable {lower state identity}

theorem membership_place (repo : Repository) {org : String} (h : Eligible lower state.orgModel identity org) :
    (place lower state identity repo).membership identity.login org =
      some (roleFor lower identity.teams (editorTeamsOf state.orgModel org) state.adminTeams) :=
  membership_setUserOrgs (fun org => roleFor lower identity.teams (editorTeamsOf state.orgModel org) state.adminTeams)
    (mem_matchOrgs.mpr h)

theorem placed_of_admitted {repo : Repository} (hRepo : state.repository = some repo)
    (h : (∃ org, Eligible lower state.orgModel identity org) ∨ inAdminTeam lower identity.teams state.adminTeams = true) :
    (oauthCallback lower state identity).placed identity.login =
      some (activeOrg repo identity.login (matchOrgs lower state.orgModel identity)
        (inAdminTeam lower identity.teams state.adminTeams)) := by
  rcases oauthCallback_cases lower state identity with ⟨-, hNone, hOther⟩ | ⟨hSigned, -⟩
  · rcases h with ⟨org, hOrg⟩ | hAdmin
    · exact absurd hOrg (hNone org)
    · rw [hOther] at hAdmin
      cases hAdmin
  · obtain ⟨user, hUser, hOrg, -⟩ := user_place lower state identity repo
    rw [hSigned, Answer.placed, hRepo, Option.map_some, Option.bind_some, hUser, Option.map_some, hOrg]

theorem oauthCallback_consistent (lower : String → String) (state : State) (identity : Identity) :
    Consistent lower state identity where
  admitted := by
    rcases oauthCallback_cases lower state identity with
      ⟨hRefused, hNone, hOther⟩ | ⟨hSigned, hAdmitted⟩
    · rw [hRefused, hOther]
      refine iff_of_false nofun ?_
      rintro (⟨org, hOrg⟩ | hAdmin)
      · exact hNone org hOrg
      · cases hAdmin
    · exact iff_of_true ⟨_, hSigned⟩ hAdmitted
  placed := by
    intro before after hRepo hAfter
    rcases oauthCallback_cases lower state identity with
      ⟨hRefused, -⟩ | ⟨hSigned, hAdmitted⟩
    · rw [hRefused] at hAfter
      cases hAfter
    · rw [hSigned] at hAfter
      obtain rfl := Answer.signedIn.inj hAfter
      obtain ⟨user, hUser, hOrg, hRole⟩ := user_place lower state identity before
      refine ⟨place lower state identity before, user, by rw [hRepo]; rfl, hUser, ?_, ?_⟩
      · rw [hOrg]
        rcases activeOrg_cases before identity.login (matchOrgs lower state.orgModel identity)
          (inAdminTeam lower identity.teams state.adminTeams) with hEligible | hPicked | ⟨hDefault, hNone⟩
        · exact .inl (mem_matchOrgs.mp hEligible)
        · exact .inr (.inl hPicked)
        · have hNoOrg : ∀ org, ¬ Eligible lower state.orgModel identity org := by
            intro org hOrg
            have hMem := mem_matchOrgs.mpr hOrg
            rw [hNone] at hMem
            cases hMem
          exact .inr (.inr ⟨hDefault, hAdmitted.resolve_left (not_exists.mpr hNoOrg), hNoOrg⟩)
      · intro hEligible
        rw [membership_place before hEligible, hRole]
  lost := by
    intro before user hRepo hUser hOther hLost hSame
    rcases oauthCallback_cases lower state identity with
      ⟨hRefused, -⟩ | ⟨-, hAdmitted⟩
    · rw [hRefused] at hSame
      cases hSame
    · rw [placed_of_admitted hRepo hAdmitted] at hSame
      have hOrg := Option.some.inj hSame
      rcases activeOrg_cases before identity.login (matchOrgs lower state.orgModel identity)
        (inAdminTeam lower identity.teams state.adminTeams) with hEligible | ⟨hAdmin, -⟩ | ⟨-, hNone⟩
      · rw [hOrg] at hEligible
        exact hLost (mem_matchOrgs.mp hEligible)
      · rw [hOther] at hAdmin
        cases hAdmin
      · rw [hOther] at hAdmitted
        obtain ⟨org, hEligible⟩ := hAdmitted.resolve_right Bool.false_ne_true
        have hMem := mem_matchOrgs.mpr hEligible
        rw [hNone] at hMem
        cases hMem
  team := by
    rintro before org axis team hRepo hPick ⟨other, config, -, hMem, hLists⟩
    have hModel : state.orgModel = orgsFromDb before := by rw [State.orgModel, hRepo]
    have hModel' : (state.addTeam org axis team).orgModel = orgsFromDb (before.addTeam org axis team) := by
      rw [State.orgModel, State.addTeam, hRepo]
      rfl
    have hSame := orgsFromDb_addTeam before org axis team
    rw [← hModel, ← hModel'] at hSame
    have hListed : other ∈ matchGithubOrgs state.orgModel identity := mem_matchGithubOrgs.mpr ⟨config, hMem, hLists⟩
    have hListed' := hListed
    rw [matchGithubOrgs_same hSame] at hListed'
    obtain ⟨config', hMem', hLists'⟩ := mem_matchGithubOrgs.mp hListed'
    have hRepo' : (state.addTeam org axis team).repository = some (before.addTeam org axis team) := by
      rw [State.addTeam, hRepo]
      rfl
    have hPick' : (before.addTeam org axis team).userSelectedOrg identity.login = none := hPick
    rw [placed_of_admitted hRepo (.inl ⟨other, config, hMem, .inl hLists⟩),
      placed_of_admitted hRepo' (.inl ⟨other, config', hMem', .inl hLists'⟩), activeOrg, activeOrg, hPick, hPick',
      preferredOrg_same lower hSame (List.ne_nil_of_mem hListed)]

end Consistency

end Bajutsu.Serve.OauthPlacement
