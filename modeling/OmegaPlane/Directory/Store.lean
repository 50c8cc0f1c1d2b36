import OmegaPlane.Data.ByteOrder
import OmegaPlane.Directory.Names
import OmegaPlane.Transaction.Program

/-!
# The directory in the database

The rows of the domain, group and SCIM tables, and the store functions over the
domains, their admins, the groups and their members.  Each function is the
program of statements it sends in one transaction.
-/

namespace OmegaPlane.Directory

open Transaction

/-! ## Rows -/

/-- A row of `domains`. -/
structure DomainRow where
  name : Bytes
  parent : Bytes
  description : Bytes
  createdAt : Int
  deriving DecidableEq

/-- A row of `groups`. -/
structure GroupRow where
  domain : Bytes
  name : Bytes
  description : Bytes
  createdAt : Int
  deriving DecidableEq

/-- A row of `group_members`; a zero expiry is none. -/
structure MemberRow where
  domain : Bytes
  group : Bytes
  principal : Bytes
  expiresAt : Int
  deriving DecidableEq

/-- A row of `scim_users`. -/
structure UserRow where
  idp : Bytes
  id : Bytes
  userName : Bytes
  userNameLower : Bytes
  externalId : Bytes
  displayName : Bytes
  active : Bool
  principal : Bytes
  createdAt : Int
  updatedAt : Int
  deriving DecidableEq

/-- A row of `scim_groups`. -/
structure ScimGroupRow where
  idp : Bytes
  id : Bytes
  displayName : Bytes
  externalId : Bytes
  domain : Bytes
  group : Bytes
  createdAt : Int
  updatedAt : Int
  deriving DecidableEq

/-- A row of one of the tables. -/
inductive Row where
  | domain (row : DomainRow)
  | grant (domain principal : Bytes)
  | group (row : GroupRow)
  | member (row : MemberRow)
  | user (row : UserRow)
  | scimGroup (row : ScimGroupRow)
  | scimMember (idp group user : Bytes)
  deriving DecidableEq

/-- The primary keys, and the entries of the other unique indexes. -/
inductive Key where
  | domain (name : Bytes)
  | grant (domain principal : Bytes)
  | group (domain name : Bytes)
  | member (domain group principal : Bytes)
  | user (idp id : Bytes)
  | userName (idp lower : Bytes)
  | externalId (idp externalId : Bytes)
  | scimGroup (idp id : Bytes)
  | managed (domain group : Bytes)
  | scimMember (idp group user : Bytes)
  deriving DecidableEq

namespace Row

def key : Row → Key
  | domain row => .domain row.name
  | grant owner principal => .grant owner principal
  | group row => .group row.domain row.name
  | member row => .member row.domain row.group row.principal
  | user row => .user row.idp row.id
  | scimGroup row => .scimGroup row.idp row.id
  | scimMember idp groupId userId => .scimMember idp groupId userId

/-- The unique indexes beside the primary keys: user names regardless of case,
external ids that are not empty, and the group a SCIM group owns. -/
def slots : Row → List Key
  | user row =>
    .userName row.idp row.userNameLower ::
      if row.externalId = [] then [] else [.externalId row.idp row.externalId]
  | scimGroup row => [.managed row.domain row.group]
  | _ => []

/-! ## Conditions of the queries -/

/-- `FROM domains WHERE parent = …`. -/
def isChildOf (parent : Bytes) : Row → Bool
  | domain row => row.parent = parent
  | _ => false

/-- `FROM domain_admins WHERE domain = …`. -/
def isGrantOf (name : Bytes) : Row → Bool
  | grant owner _ => owner = name
  | _ => false

/-- `FROM groups WHERE domain = …`. -/
def isGroupOf (name : Bytes) : Row → Bool
  | group row => row.domain = name
  | _ => false

/-- `FROM group_members WHERE domain = … AND grp = …`. -/
def isMemberOf (domain group : Bytes) : Row → Bool
  | member row => row.domain = domain && row.group = group
  | _ => false

/-- `FROM scim_groups WHERE domain = … AND grp = …`. -/
def manages (domain group : Bytes) : Row → Bool
  | scimGroup row => row.domain = domain && row.group = group
  | _ => false

/-- The row with a key. -/
def named (name : Key) (row : Row) : Bool :=
  row.key = name

end Row

/-- The database: the rows of all tables. -/
abbrev Database := Table Row.key

inductive StoreError where
  | invalid
  | notFound
  | alreadyExists
  | parentNotFound
  | hasChildren
  | hasGroups
  | scimManaged
  | unknownMember
  | changed
  | failed
  deriving DecidableEq

/-- A store function: the statements of its transaction. -/
abbrev Tx := Program Row Key StoreError

open Program in
/-- `lockDomain`: the domain must exist. -/
def lockDomain (name : Bytes) (mode : LockMode) : Tx Unit :=
  require (.lock (.domain name) mode) .notFound

open Program in
/-- `lockGroupMode`: the group must exist. -/
def lockGroup (domain name : Bytes) (mode : LockMode) : Tx Unit :=
  require (.lock (.group domain name) mode) .notFound

open Program in
/-- `refuseManaged`: fail when a provider owns the group. -/
def refuseManaged (domain name : Bytes) : Tx Unit := do
  let owners ← query (Row.manages domain name)
  guard (owners = []) .scimManaged

/-! ## Domains -/

/-- A domain as the store takes and returns it; no creation time is the zero
time. -/
structure Domain where
  name : Bytes
  parent : Bytes
  description : Bytes
  admins : List Bytes
  createdAt : Option Int
  deriving DecidableEq

def dedupe (admins : List Bytes) : List Bytes :=
  sortOn id (admins.filter fun admin => admin ≠ []).dedup

namespace Store

open Program

/-- The parent must exist, unless the domain is at the top. -/
def lockParent (parent : Bytes) : Tx Unit :=
  if parent = [] then
    return ()
  else
    require (.lock (.domain parent) .share) .parentNotFound

def createDomain (now : Int) (d : Domain) : Tx Domain := do
  guard (validateDomainName d.name = true) .invalid
  guard (d.parent = [] ∨ d.parent = parentOf d.name) .invalid
  lockParent (parentOf d.name)
  -- Grants that a delete left behind must not come back with the name.
  let _ ← attempt (.delete (Row.isGrantOf d.name))
  require (.insert (.domain ⟨d.name, parentOf d.name, d.description, d.createdAt.getD now⟩))
    .alreadyExists
  insertAll .failed ((dedupe d.admins).map (.grant d.name))
  return { d with
    parent := parentOf d.name
    admins := dedupe d.admins
    createdAt := some (d.createdAt.getD now) }

def deleteDomain (name : Bytes) : Tx Unit := do
  lockDomain name .update
  let children ← query (Row.isChildOf name)
  guard (children = []) .hasChildren
  let groups ← query (Row.isGroupOf name)
  guard (groups = []) .hasGroups
  let _ ← attempt (.delete (Row.named (.domain name)))
  let _ ← attempt (.delete (Row.isGrantOf name))

/-- Whether the grant was inserted. -/
def addDomainAdmin (domain principal : Bytes) : Tx Bool := do
  lockDomain domain .share
  attempt (.insert (.grant domain principal))

def removeDomainAdmin (domain principal : Bytes) : Tx Unit :=
  require (.delete (Row.named (.grant domain principal))) .notFound

/-- The first query of `GetDomain`: the row of the domain. -/
def getDomainRow (name : Bytes) : Tx DomainRow := do
  match ← query (Row.named (.domain name)) with
  | .domain row :: _ => return row
  | _ => .fail .notFound

def principalOf : Row → Option Bytes
  | .grant _ principal => some principal
  | _ => none

/-- `adminsByDomain` for one domain, the second query of `GetDomain`. -/
def adminsByDomain (name : Bytes) : Tx (List Bytes) := do
  let grants ← query (Row.isGrantOf name)
  return sortOn id (grants.filterMap principalOf)

/-- `AdminsOf`: the grants on the named domains. -/
def adminsOf (names : List Bytes) : Tx (List (Bytes × Bytes)) := do
  let grants ← query fun
    | .grant domain _ => names.contains domain
    | _ => false
  return grants.filterMap fun
    | .grant domain principal => some (domain, principal)
    | _ => none

end Store

/-! ## Groups -/

/-- A membership; no expiry is the zero time. -/
structure GroupMember where
  principal : Bytes
  expiresAt : Option Int
  deriving DecidableEq

structure Group where
  domain : Bytes
  name : Bytes
  description : Bytes
  members : List GroupMember
  createdAt : Int
  deriving DecidableEq

/-- The expiry as it is stored. -/
def nanos (time : Option Int) : Int :=
  time.getD 0

/-- The expiry as it is read. -/
def expiryOf (nanos : Int) : Option Int :=
  if nanos ≠ 0 then some nanos else none

namespace Store

open Program

/-- `memberTx`: the membership of a principal. -/
def member (domain name principal : Bytes) : Tx (Option GroupMember) := do
  match ← query (Row.named (.member domain name principal)) with
  | .member row :: _ => return some ⟨principal, expiryOf row.expiresAt⟩
  | _ => return none

def createGroup (now : Int) (domain name description : Bytes) : Tx Unit := do
  guard (validateGroupName name = true) .invalid
  lockDomain domain .share
  let _ ← attempt (.delete (Row.isMemberOf domain name))
  require (.insert (.group ⟨domain, name, description, now⟩)) .alreadyExists

def memberOf : Row → Option GroupMember
  | .member row => some ⟨row.principal, expiryOf row.expiresAt⟩
  | _ => none

/-- The group as it was when it was deleted. -/
def deleteGroup (domain name : Bytes) : Tx Group := do
  lockGroup domain name .update
  refuseManaged domain name
  match ← query (Row.named (.group domain name)) with
  | .group row :: _ => do
    let members ← query (Row.isMemberOf domain name)
    let _ ← attempt (.delete (Row.named (.group domain name)))
    let _ ← attempt (.delete (Row.isMemberOf domain name))
    return ⟨domain, name, row.description,
      sortOn GroupMember.principal (members.filterMap memberOf), row.createdAt⟩
  | _ => .fail .failed

/-- The membership that was replaced. -/
def putGroupMember (domain name : Bytes) (m : GroupMember) : Tx (Option GroupMember) := do
  lockGroup domain name .share
  refuseManaged domain name
  let prior ← member domain name m.principal
  let _ ← attempt (.upsert (.member ⟨domain, name, m.principal, nanos m.expiresAt⟩))
  return prior

/-- The membership that was removed. -/
def removeGroupMember (domain name principal : Bytes) : Tx GroupMember := do
  lockGroup domain name .share
  refuseManaged domain name
  match ← member domain name principal with
  | none => .fail .notFound
  | some prior => do
    let _ ← attempt (.delete (Row.named (.member domain name principal)))
    return prior

/-- Set a membership to `want`, but only while it equals `expect`. -/
def swapGroupMember (domain name principal : Bytes) (expect want : Option GroupMember) :
    Tx Unit := do
  lockGroup domain name .share
  refuseManaged domain name
  let cur ← member domain name principal
  guard (cur = expect) .changed
  match want with
  | none => do
    let _ ← attempt (.delete (Row.named (.member domain name principal)))
  | some m => do
    let _ ← attempt (.upsert (.member ⟨domain, name, principal, nanos m.expiresAt⟩))

def deleteEmptyGroup (domain name : Bytes) : Tx Unit := do
  if ← attempt (.lock (.group domain name) .update) then
    refuseManaged domain name
    let members ← query (Row.isMemberOf domain name)
    guard (members = []) .changed
    let _ ← attempt (.delete (Row.named (.group domain name)))

def restoreGroup (g : Group) : Tx Unit := do
  lockDomain g.domain .share
  require (.insert (.group ⟨g.domain, g.name, g.description, g.createdAt⟩)) .alreadyExists
  insertAll .failed (g.members.map fun m =>
    .member ⟨g.domain, g.name, m.principal, nanos m.expiresAt⟩)

/-- `SCIMManaged`: whether a provider owns the group. -/
def scimManaged (domain name : Bytes) : Tx Bool := do
  let owners ← query (Row.manages domain name)
  return owners ≠ []

end Store

end OmegaPlane.Directory
