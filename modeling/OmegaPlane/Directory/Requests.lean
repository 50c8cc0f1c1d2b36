import OmegaPlane.Data.SpiffeId
import OmegaPlane.Directory.Store
import OmegaPlane.Transaction.Core

/-!
# Requests that change the directory

A request reaches the store in several transactions: it is authorized, may look
at what it is about to change, makes the change and appends its audit row.  When
the row cannot be written the change is undone by another transaction.  Requests
are interleaved between these transactions.
-/

namespace OmegaPlane.Directory

open Transaction

structure Config where
  requireAuth : Bool
  rootAdmins : List Bytes

/-! ## Access to the store -/

/-- One call of the store. -/
inductive Access where
  | mayAdminister (caller domain : Bytes)
  | getDomainRow (name : Bytes)
  | adminsByDomain (name : Bytes)
  | scimManaged (domain group : Bytes)
  | createDomain (d : Domain)
  | deleteDomain (name : Bytes)
  | addDomainAdmin (domain principal : Bytes)
  | removeDomainAdmin (domain principal : Bytes)
  | createGroup (domain name description : Bytes)
  | deleteGroup (domain name : Bytes)
  | putGroupMember (domain name : Bytes) (member : GroupMember)
  | removeGroupMember (domain name principal : Bytes)
  | swapGroupMember (domain name principal : Bytes) (expect want : Option GroupMember)
  | deleteEmptyGroup (domain name : Bytes)
  | restoreGroup (group : Group)
  | appendAudit (kind subject decision : Bytes)
  deriving DecidableEq

inductive Reply where
  | none
  | flag (value : Bool)
  | domainRow (row : DomainRow)
  | admins (principals : List Bytes)
  | domain (created : Domain)
  | group (deleted : Group)
  | member (membership : Option GroupMember)
  deriving DecidableEq

/-- A root admin may administer every domain; everybody else needs a grant on the
domain or above it.  Without `--require-auth` every caller may. -/
def mayAdminister (config : Config) (caller domain : Bytes) : Tx Bool :=
  if config.requireAuth = false then
    return true
  else if caller = [] then
    return false
  else if caller ∈ config.rootAdmins then
    return true
  else do
    let admins ← Store.adminsOf (chain domain)
    return (chain domain).any fun name => admins.contains (name, caller)

/-- The statements of a call.  Audit rows are not part of the directory. -/
def Access.program (config : Config) (now : Int) : Access → Tx Reply
  | mayAdminister caller domain => do
    return .flag (← Directory.mayAdminister config caller domain)
  | getDomainRow name => do return .domainRow (← Store.getDomainRow name)
  | adminsByDomain name => do return .admins (← Store.adminsByDomain name)
  | scimManaged domain group => do return .flag (← Store.scimManaged domain group)
  | createDomain d => do return .domain (← Store.createDomain now d)
  | deleteDomain name => do
    Store.deleteDomain name
    return .none
  | addDomainAdmin domain principal => do
    return .flag (← Store.addDomainAdmin domain principal)
  | removeDomainAdmin domain principal => do
    Store.removeDomainAdmin domain principal
    return .none
  | createGroup domain name description => do
    Store.createGroup now domain name description
    return .none
  | deleteGroup domain name => do return .group (← Store.deleteGroup domain name)
  | putGroupMember domain name member => do
    return .member (← Store.putGroupMember domain name member)
  | removeGroupMember domain name principal => do
    return .member (some (← Store.removeGroupMember domain name principal))
  | swapGroupMember domain name principal expect want => do
    Store.swapGroupMember domain name principal expect want
    return .none
  | deleteEmptyGroup domain name => do
    Store.deleteEmptyGroup domain name
    return .none
  | restoreGroup group => do
    Store.restoreGroup group
    return .none
  | appendAudit _ _ _ => return .none

/-- What a call meets: the clock, and what becomes of its commit.  A call that is
refused covers a replica that is not the leader and a database that fails. -/
structure Weather where
  now : Int
  commit : CommitOutcome
  deriving DecidableEq

def Access.run (config : Config) (weather : Weather) (access : Access) (db : Database) :
    Except StoreError Reply × Database :=
  let (reply, after) := (access.program config weather.now).transact Row.slots db
  match weather.commit with
  | .acknowledged => (reply, after)
  | .refused => (.error .failed, db)
  | .unacknowledged => (.error .failed, after)

/-! ## Handlers -/

/-- What a handler does with the store once its input is accepted. -/
structure Plan where
  kind : Bytes
  subject : Bytes
  /-- The domain the caller must administer. -/
  domain : Bytes
  /-- The reads before the change, and the status of one that fails. -/
  inspect : List Access := []
  inspectStatus : StoreError → Nat := fun _ => 500
  change : Access
  status : StoreError → Nat
  success : Nat
  /-- How the change is undone, given what was read and what it answered. -/
  undo : List Reply → Reply → Option Access

def isSpiffeId (text : Bytes) : Bool :=
  (SpiffeId.fromString text).isSome

/-- `domainPathName`. -/
def domainPathName (name : Bytes) : Except Nat Bytes :=
  if validateDomainName name then .ok name else .error 400

/-- `groupPath`. -/
def groupPath (domain group : Bytes) : Except Nat (Bytes × Bytes) := do
  let domain ← domainPathName domain
  if validateGroupName group then .ok (domain, group) else .error 400

/-- The identity of a group in the audit log and in policies. -/
def groupId (domain group : Bytes) : Bytes :=
  domain ++ [58] ++ group

def createDomain (caller : Bytes) (d : Domain) : Except Nat Plan :=
  if validateDomainName d.name = false then
    .error 400
  else if d.admins.all isSpiffeId = false then
    .error 400
  else
    .ok
      { kind := ascii "domain.create"
        subject := d.name
        -- Creating a domain is administering its parent.
        domain := parentOf d.name
        change := .createDomain
          { d with admins := if d.admins = [] ∧ caller ≠ [] then [caller] else d.admins }
        status := fun
          | .alreadyExists => 409
          | .parentNotFound => 400
          | _ => 500
        success := 201
        undo := fun _ _ => some (.deleteDomain d.name) }

/-- What `deleteDomain` kept of the domain. -/
def before : List Reply → Option Domain
  | [.domainRow row, .admins principals] =>
    some ⟨row.name, row.parent, row.description, principals, some row.createdAt⟩
  | _ => none

def deleteDomain (name : Bytes) : Except Nat Plan := do
  let name ← domainPathName name
  return {
    kind := ascii "domain.delete"
    subject := name
    domain := parentOf name
    inspect := [.getDomainRow name, .adminsByDomain name]
    inspectStatus := fun
      | .notFound => 404
      | _ => 500
    change := .deleteDomain name
    status := fun
      | .notFound => 404
      | .hasChildren => 409
      | .hasGroups => 409
      | _ => 500
    success := 204
    undo := fun seen _ => (before seen).map .createDomain }

/-- The statuses of the admin endpoints. -/
def adminStatus : StoreError → Nat
  | .notFound => 404
  | _ => 500

def addDomainAdmin (name principal : Bytes) : Except Nat Plan := do
  let name ← domainPathName name
  if isSpiffeId principal = false then
    .error 400
  else
    .ok
      { kind := ascii "domain.admin.add"
        subject := name
        domain := name
        change := .addDomainAdmin name principal
        status := adminStatus
        success := 200
        -- Only a grant this request inserted is undone.
        undo := fun _ reply =>
          if reply = .flag true then some (.removeDomainAdmin name principal) else none }

def removeDomainAdmin (name principal : Bytes) : Except Nat Plan := do
  let name ← domainPathName name
  let principal := Text.trimSpace principal
  if principal = [] then
    .error 400
  else
    .ok
      { kind := ascii "domain.admin.remove"
        subject := name
        domain := name
        change := .removeDomainAdmin name principal
        status := adminStatus
        success := 200
        undo := fun _ _ => some (.addDomainAdmin name principal) }

/-- The statuses of the group endpoints. -/
def groupStatus : StoreError → Nat
  | .notFound => 404
  | .alreadyExists => 409
  | .scimManaged => 409
  | _ => 500

def createGroup (domain name description : Bytes) : Except Nat Plan := do
  let domain ← domainPathName domain
  if validateGroupName name = false then
    .error 400
  else
    .ok
      { kind := ascii "group.create"
        subject := groupId domain name
        domain := domain
        change := .createGroup domain name description
        status := groupStatus
        success := 201
        undo := fun _ _ => some (.deleteEmptyGroup domain name) }

/-- The statuses of the other group endpoints, which know no conflict of names. -/
def memberStatus : StoreError → Nat
  | .notFound => 404
  | .scimManaged => 409
  | _ => 500

def deleteGroup (domain group : Bytes) : Except Nat Plan := do
  let (domain, group) ← groupPath domain group
  return {
    kind := ascii "group.delete"
    subject := groupId domain group
    domain := domain
    inspect := [.scimManaged domain group]
    change := .deleteGroup domain group
    status := memberStatus
    success := 204
    undo := fun _ reply =>
      match reply with
      | .group before => some (.restoreGroup before)
      | _ => none }

/-- The longest lifetime of a membership, 366 days. -/
def maxMembershipLifetime : Int :=
  366 * 24 * 3600 * 1000000000

def putGroupMember (now : Int) (domain group principal : Bytes) (expiresAt : Option Int) :
    Except Nat Plan := do
  let (domain, group) ← groupPath domain group
  if isSpiffeId principal = false then
    .error 400
  else if expiresAt.any fun expiry => expiry ≤ now || now + maxMembershipLifetime < expiry then
    .error 400
  else
    let written : GroupMember := ⟨principal, expiresAt⟩
    .ok
      { kind := ascii "group.member.add"
        subject := groupId domain group
        domain := domain
        inspect := [.scimManaged domain group]
        change := .putGroupMember domain group written
        status := memberStatus
        success := 200
        undo := fun _ reply =>
          match reply with
          | .member prior => some (.swapGroupMember domain group principal (some written) prior)
          | _ => none }

def removeGroupMember (domain group principal : Bytes) : Except Nat Plan := do
  let (domain, group) ← groupPath domain group
  let principal := Text.trimSpace principal
  if principal = [] then
    .error 400
  else
    .ok
      { kind := ascii "group.member.remove"
        subject := groupId domain group
        domain := domain
        inspect := [.scimManaged domain group]
        change := .removeGroupMember domain group principal
        status := memberStatus
        success := 200
        undo := fun _ reply =>
          match reply with
          | .member removed => some (.swapGroupMember domain group principal none removed)
          | _ => none }

/-- A request as it arrives. -/
inductive Body where
  | createDomain (d : Domain)
  | deleteDomain (name : Bytes)
  | addDomainAdmin (name principal : Bytes)
  | removeDomainAdmin (name principal : Bytes)
  | createGroup (domain name description : Bytes)
  | deleteGroup (domain group : Bytes)
  | putGroupMember (domain group principal : Bytes) (expiresAt : Option Int)
  | removeGroupMember (domain group principal : Bytes)

def Body.plan (caller : Bytes) (now : Int) : Body → Except Nat Plan
  | createDomain d => Directory.createDomain caller d
  | deleteDomain name => Directory.deleteDomain name
  | addDomainAdmin name principal => Directory.addDomainAdmin name principal
  | removeDomainAdmin name principal => Directory.removeDomainAdmin name principal
  | createGroup domain name description => Directory.createGroup domain name description
  | deleteGroup domain group => Directory.deleteGroup domain group
  | putGroupMember domain group principal expiresAt =>
    Directory.putGroupMember now domain group principal expiresAt
  | removeGroupMember domain group principal =>
    Directory.removeGroupMember domain group principal

/-! ## Requests in progress -/

/-- How far a request has come; `reverted` says that it ended by undoing its
change. -/
inductive Stage where
  | authorize
  | inspect (seen : List Reply) (now : Access) (todo : List Access)
  | change (seen : List Reply)
  | record (seen : List Reply) (reply : Reply)
  | undo (access : Access)
  | revert
  | answered (status : Nat) (reverted : Bool)
  deriving DecidableEq

structure Request where
  caller : Bytes
  plan : Plan
  stage : Stage

namespace Request

/-- The next call of the store. -/
def next (request : Request) : Option Access :=
  match request.stage with
  | .authorize => some (.mayAdminister request.caller request.plan.domain)
  | .inspect _ now _ => some now
  | .change _ => some request.plan.change
  | .record _ _ => some (.appendAudit request.plan.kind request.plan.subject (ascii "ok"))
  | .undo access => some access
  | .revert => some (.appendAudit request.plan.kind request.plan.subject (ascii "reverted"))
  | .answered _ _ => none

/-- Read what is left to read, then make the change. -/
def inspecting (seen : List Reply) : List Access → Stage
  | [] => .change seen
  | now :: todo => .inspect seen now todo

/-- The stage after the store answered. -/
def advance (request : Request) (result : Except StoreError Reply) : Stage :=
  match request.stage, result with
  | .authorize, .ok (.flag true) => inspecting [] request.plan.inspect
  | .authorize, .ok _ => .answered 403 false
  | .authorize, .error _ => .answered 500 false
  -- A group that a provider owns is refused here already.
  | .inspect _ _ _, .ok (.flag true) => .answered 409 false
  | .inspect seen _ todo, .ok reply => inspecting (seen ++ [reply]) todo
  | .inspect _ _ _, .error err => .answered (request.plan.inspectStatus err) false
  | .change seen, .ok reply => .record seen reply
  | .change _, .error err => .answered (request.plan.status err) false
  | .record _ _, .ok _ => .answered request.plan.success false
  | .record seen reply, .error _ =>
    match request.plan.undo seen reply with
    | some access => .undo access
    | none => .revert
  | .undo _, .ok _ => .revert
  | .undo _, .error _ => .answered 500 false
  | .revert, _ => .answered 500 true
  | .answered status reverted, _ => .answered status reverted

end Request

/-- A request is refused before it reaches the store, or is under way. -/
def receive (caller : Bytes) (now : Int) (body : Body) : Except Nat Request := do
  let plan ← body.plan caller now
  return { caller, plan, stage := .authorize }

/-- Requests and the database they share. -/
structure System (ι : Type) where
  requests : ι → Except Nat Request
  db : Database

/-- One request calls the store. -/
structure Turn (ι : Type) where
  who : ι
  weather : Weather

namespace System

variable {ι : Type} [DecidableEq ι]

/-- The call a request makes next. -/
def next (system : System ι) (who : ι) : Option (Request × Access) :=
  match system.requests who with
  | .error _ => none
  | .ok request => request.next.map (request, ·)

def step (config : Config) (system : System ι) (turn : Turn ι) : System ι :=
  match system.next turn.who with
  | none => system
  | some (request, access) =>
    let (result, db) := access.run config turn.weather system.db
    { requests := Function.update system.requests turn.who
        (.ok { request with stage := request.advance result })
      db }

def run (config : Config) (system : System ι) (schedule : List (Turn ι)) : System ι :=
  schedule.foldl (step config) system

end System

end OmegaPlane.Directory
