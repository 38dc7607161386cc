import Bajutsu.Lib.Interleaving
import Bajutsu.Lib.Table

/-!
# Organisations

The roster of an organisation is seeded from the configuration once, and from then on an administrator
sets it. A session reads the row, and commits the columns whose value is not the one it read.
-/

namespace Bajutsu.Serve.Orgs

open Interleaving

structure AllowedRepository where
  repository : String
  environment : Option String
  ref : Option String
  workflowRef : Option String
  deriving DecidableEq

/-- The membership columns. -/
structure Roster where
  members : Option (List String)
  githubOrgs : Option (List String)
  githubTeams : Option (List String)
  editorTeams : Option (List String)
  allowedRepositories : Option (List AllowedRepository)
  deriving DecidableEq

structure Org where
  id : String
  slug : String
  name : String
  roster : Roster
  membershipSeededAt : Option Int
  deletedAt : Option Int
  deriving DecidableEq

/-- The membership a call is given. -/
structure Membership where
  members : List String
  githubOrgs : List String
  githubTeams : List String
  editorTeams : List String
  allowedRepositories : Option (List AllowedRepository)

/-- The columns a session writes, with their values. -/
structure Changes where
  roster : Roster
  membershipSeededAt : Option Int
  deletedAt : Option Int

def Roster.empty : Roster := ⟨none, none, none, none, none⟩

/-- A column is written when its value is not the one that was read. -/
def changed {α : Type} [DecidableEq α] (read : Option α) (value : α) : Option α :=
  if read = some value then none else some value

def Membership.changes (membership : Membership) (read : Org) (seededAt : Option Int) : Changes where
  roster :=
    { members := changed read.roster.members membership.members
      githubOrgs := changed read.roster.githubOrgs membership.githubOrgs
      githubTeams := changed read.roster.githubTeams membership.githubTeams
      editorTeams := changed read.roster.editorTeams membership.editorTeams
      allowedRepositories := membership.allowedRepositories.bind (changed read.roster.allowedRepositories) }
  membershipSeededAt := seededAt
  deletedAt := none

def Changes.write (changes : Changes) (row : Org) : Org :=
  { row with
    roster :=
      { members := changes.roster.members.or row.roster.members
        githubOrgs := changes.roster.githubOrgs.or row.roster.githubOrgs
        githubTeams := changes.roster.githubTeams.or row.roster.githubTeams
        editorTeams := changes.roster.editorTeams.or row.roster.editorTeams
        allowedRepositories := changes.roster.allowedRepositories.or row.roster.allowedRepositories }
    membershipSeededAt := changes.membershipSeededAt.or row.membershipSeededAt
    deletedAt := changes.deletedAt.or row.deletedAt }

inductive Statement where
  | get (id : String)
  | insert (row : Org)
  | commit (id : String) (changes : Changes)

def Reply : Statement → Type
  | .get _ => Int × Option Org
  | .insert _ => Bool
  | .commit .. => Nat

abbrev Rows := List Org

def Rows.org (rows : Rows) (id : String) : Option Org := Table.find Org.id rows id

/-- Both the id and the slug are unique. -/
def Rows.insert (row : Org) (rows : Rows) : Rows × Bool :=
  if rows.any fun other => other.slug = row.slug then (rows, false) else Table.insert Org.id row rows

def exec : (s : Statement) → Int → Rows → Rows × Reply s
  | .get id, now, rows => (rows, now, rows.org id)
  | .insert row, _, rows => rows.insert row
  | .commit id changes, _, rows => Table.updateOne Org.id id (fun _ => true) changes.write rows

inductive Result where
  | returned (value : Bool)
  | nothing
  | staleData
  deriving DecidableEq

abbrev Program := Prog Statement Reply Result

/-- The row is past its cutover, or retired. -/
def Org.settled (row : Org) : Bool := row.membershipSeededAt.isSome || row.deletedAt.isSome

def save (id : String) (changes : Changes) : Program :=
  .stmt (.commit id changes) fun count : Nat => .ret (if count = 1 then .returned true else .staleData)

def ensureOrg (id slug name : String) : Program :=
  .stmt (.get id) fun read : Int × Option Org =>
    match read.2 with
    | some _ => .ret .nothing
    | none => .stmt (.insert ⟨id, slug, name, .empty, none, none⟩) fun _ => .ret .nothing

def createOrg (slug name : String) : Program :=
  .stmt (.get slug) fun read : Int × Option Org =>
    match read.2 with
    | some _ => .ret (.returned false)
    | none =>
      let roster : Roster := ⟨some [], some [], some [], none, none⟩
      .stmt (.insert ⟨slug, slug, name, roster, some read.1, none⟩) fun inserted : Bool =>
        .ret (.returned inserted)

def setOrgMembership (id : String) (membership : Membership) : Program :=
  .stmt (.get id) fun read : Int × Option Org =>
    match read.2 with
    | none => .ret (.returned false)
    | some row =>
      if row.deletedAt.isSome then .ret (.returned false)
      else save id (membership.changes row (if row.membershipSeededAt.isNone then some read.1 else none))

/-- The row as a seed inserts it. -/
def Membership.row (membership : Membership) (id slug name : String) (seededAt : Int) : Org where
  id := id
  slug := slug
  name := name
  roster :=
    { members := some membership.members
      githubOrgs := some membership.githubOrgs
      githubTeams := some membership.githubTeams
      editorTeams := some membership.editorTeams
      allowedRepositories := membership.allowedRepositories }
  membershipSeededAt := some seededAt
  deletedAt := none

/-- The second read, of the row that won the insert. -/
def seedConflict (id : String) (membership : Membership) (seededAt : Int) : Program :=
  .stmt (.get id) fun read : Int × Option Org =>
    match read.2 with
    | none => .ret (.returned false)
    | some row =>
      if row.settled then .ret (.returned false) else save id (membership.changes row (some seededAt))

def seedInsert (id slug name : String) (membership : Membership) (seededAt : Int) : Program :=
  .stmt (.insert (membership.row id slug name seededAt)) fun inserted : Bool =>
    if inserted then .ret (.returned true) else seedConflict id membership seededAt

def seedOrgMembership (id slug name : String) (membership : Membership) : Program :=
  .stmt (.get id) fun read : Int × Option Org =>
    match read.2 with
    | none => seedInsert id slug name membership read.1
    | some row =>
      if row.settled then .ret (.returned false) else save id (membership.changes row (some read.1))

def softDeleteOrg (id : String) (at_ : Int) : Program :=
  .stmt (.get id) fun read : Int × Option Org =>
    match read.2 with
    | none => .ret (.returned false)
    | some row =>
      if row.deletedAt.isSome then .ret (.returned false) else save id ⟨.empty, none, some at_⟩

inductive Call where
  | ensureOrg (id slug name : String)
  | createOrg (slug name : String)
  | setOrgMembership (id : String) (membership : Membership)
  | seedOrgMembership (id slug name : String) (membership : Membership)
  | softDeleteOrg (id : String) (at_ : Int)

def program : Call → Program
  | .ensureOrg id slug name => ensureOrg id slug name
  | .createOrg slug name => createOrg slug name
  | .setOrgMembership id membership => setOrgMembership id membership
  | .seedOrgMembership id slug name membership => seedOrgMembership id slug name membership
  | .softDeleteOrg id at_ => softDeleteOrg id at_

def orgs : Machine Rows Statement Reply Int Call Program := .ofProg exec program

abbrev System := Config Rows Statement Reply Int Call Program

def Returned (st : System) (thread : Nat) (call : Call) (result : Result) : Prop :=
  st.threads[thread]? = some (call, .ret result)

end Bajutsu.Serve.Orgs
