import OmegaPlane.Data.Checks
import OmegaPlane.Directory.Requests
import OmegaPlane.Transaction.Frame

/-!
# The rows a call of the store can change

Each call changes rows of one domain, which its arguments name.
-/

namespace OmegaPlane.Directory

open Transaction Program

/-- The domain a row of the directory belongs to. -/
def Key.owner : Key → Option Bytes
  | domain name => some name
  | grant owner _ => some owner
  | group owner _ => some owner
  | member owner _ _ => some owner
  | _ => none

namespace Access

/-- The keys of the rows a call may insert, replace or delete. -/
def Reach : Access → Key → Prop
  | createDomain d, key => key = .domain d.name ∨ ∃ principal, key = .grant d.name principal
  | deleteDomain name, key => key = .domain name ∨ ∃ principal, key = .grant name principal
  | addDomainAdmin domain principal, key => key = .grant domain principal
  | removeDomainAdmin domain principal, key => key = .grant domain principal
  | createGroup domain name _, key =>
    key = .group domain name ∨ ∃ principal, key = .member domain name principal
  | deleteGroup domain name, key =>
    key = .group domain name ∨ ∃ principal, key = .member domain name principal
  | putGroupMember domain name member, key => key = .member domain name member.principal
  | removeGroupMember domain name principal, key => key = .member domain name principal
  | swapGroupMember domain name principal _ _, key => key = .member domain name principal
  | deleteEmptyGroup domain name, key => key = .group domain name
  | restoreGroup group, key =>
    key = .group group.domain group.name ∨
      ∃ principal, key = .member group.domain group.name principal
  | _, _ => False

end Access

/-! ## The statements of a call stay within its reach -/

section Writes

variable {reach : Key → Prop} {α : Type} {err : StoreError} {row : Row} {mode : LockMode}

theorem writes_require {statement : Statement Row Key} (writes : statement.Writes Row.key reach) :
    (Program.require statement err : Tx Unit).Writes Row.key reach :=
  (writes_attempt writes).bind fun _ => writes_guard

theorem writes_insert (within : reach row.key) :
    (Statement.insert row : Statement Row Key).Writes Row.key reach :=
  within

theorem writes_upsert (within : reach row.key) :
    (Statement.upsert row : Statement Row Key).Writes Row.key reach :=
  within

theorem writes_lock {name : Key} :
    (Statement.lock name mode : Statement Row Key).Writes Row.key reach :=
  trivial

theorem writes_insertAll {rows : List Row} (within : ∀ row ∈ rows, reach row.key) :
    (Program.insertAll err rows : Tx Unit).Writes Row.key reach := by
  induction rows with
  | nil => trivial
  | cons row rest ih =>
  refine .bind ?_ ?_
  · exact writes_require (writes_insert (within row (by simp)))
  intro _
  apply ih
  intro other member
  exact within other (by simp [member])

variable {name domain group : Bytes}

theorem writes_lockDomain : (lockDomain name mode).Writes Row.key reach := by
  exact writes_require writes_lock

theorem writes_lockGroup : (lockGroup domain name mode).Writes Row.key reach := by
  exact writes_require writes_lock

theorem writes_lockParent {parent : Bytes} : (Store.lockParent parent).Writes Row.key reach := by
  unfold Store.lockParent
  split
  · trivial
  · exact writes_require writes_lock

theorem writes_refuseManaged : (refuseManaged domain name).Writes Row.key reach :=
  writes_query.bind fun _ => writes_guard

theorem writes_member {principal : Bytes} :
    (Store.member domain name principal).Writes Row.key reach := by
  refine .bind writes_query ?_
  intro found
  split <;> trivial

theorem grant_of_isGrantOf (isGrant : row.isGrantOf name = true) :
    ∃ principal, row.key = .grant name principal := by
  cases row <;> simp_all [Row.isGrantOf, Row.key]

theorem member_of_isMemberOf (isMember : row.isMemberOf domain group = true) :
    ∃ principal, row.key = .member domain group principal := by
  cases row <;> simp_all [Row.isMemberOf, Row.key]

theorem key_of_named {name : Key} (named : row.named name = true) : row.key = name := by
  simpa [Row.named] using named

/-- A `DELETE` of one row reaches its key only. -/
theorem writes_deleteNamed {name : Key} (within : reach name) :
    (Statement.delete (Row.named name) : Statement Row Key).Writes Row.key reach := by
  intro row named
  rw [key_of_named named]
  exact within

theorem writes_deleteGrants (within : ∀ principal, reach (.grant name principal)) :
    (Statement.delete (Row.isGrantOf name) : Statement Row Key).Writes Row.key reach := by
  intro row isGrant
  obtain ⟨principal, named⟩ := grant_of_isGrantOf isGrant
  rw [named]
  exact within principal

theorem writes_deleteMembers (within : ∀ principal, reach (.member domain group principal)) :
    (Statement.delete (Row.isMemberOf domain group) : Statement Row Key).Writes Row.key reach := by
  intro row isMember
  obtain ⟨principal, named⟩ := member_of_isMemberOf isMember
  rw [named]
  exact within principal

theorem writes_createDomain (now : Int) (d : Domain) :
    (Store.createDomain now d).Writes Row.key (Access.createDomain d).Reach := by
  have grants : ∀ principal, (Access.createDomain d).Reach (.grant d.name principal) :=
    fun principal => .inr ⟨principal, rfl⟩
  refine .bind writes_guard ?_
  intro _
  refine .bind writes_guard ?_
  intro _
  refine .bind writes_lockParent ?_
  intro _
  refine .bind (writes_attempt (writes_deleteGrants grants)) ?_
  intro _
  refine .bind (writes_require (writes_insert (.inl rfl))) ?_
  intro _
  refine .bind (writes_insertAll ?_) fun _ => trivial
  intro row member
  obtain ⟨principal, _, rfl⟩ := List.mem_map.mp member
  exact grants principal

theorem writes_deleteDomain (name : Bytes) :
    (Store.deleteDomain name).Writes Row.key (Access.deleteDomain name).Reach := by
  have grants : ∀ principal, (Access.deleteDomain name).Reach (.grant name principal) :=
    fun principal => .inr ⟨principal, rfl⟩
  refine .bind writes_lockDomain ?_
  intro _
  refine .bind writes_query ?_
  intro _
  refine .bind writes_guard ?_
  intro _
  refine .bind writes_query ?_
  intro _
  refine .bind writes_guard ?_
  intro _
  refine .bind (writes_attempt (writes_deleteNamed (.inl rfl))) ?_
  intro _
  exact .bind (writes_attempt (writes_deleteGrants grants)) fun _ => trivial

theorem writes_createGroup (now : Int) (domain name description : Bytes) :
    (Store.createGroup now domain name description).Writes Row.key
      (Access.createGroup domain name description).Reach := by
  have members : ∀ principal,
      (Access.createGroup domain name description).Reach (.member domain name principal) :=
    fun principal => .inr ⟨principal, rfl⟩
  refine .bind writes_guard ?_
  intro _
  refine .bind writes_lockDomain ?_
  intro _
  refine .bind (writes_attempt (writes_deleteMembers members)) ?_
  intro _
  exact writes_require (writes_insert (.inl rfl))

theorem writes_deleteGroup (domain name : Bytes) :
    (Store.deleteGroup domain name).Writes Row.key (Access.deleteGroup domain name).Reach := by
  have members : ∀ principal,
      (Access.deleteGroup domain name).Reach (.member domain name principal) :=
    fun principal => .inr ⟨principal, rfl⟩
  refine .bind writes_lockGroup ?_
  intro _
  refine .bind writes_refuseManaged ?_
  intro _
  refine .bind writes_query ?_
  intro found
  split
  · refine .bind writes_query ?_
    intro _
    refine .bind (writes_attempt (writes_deleteNamed (.inl rfl))) ?_
    intro _
    exact .bind (writes_attempt (writes_deleteMembers members)) fun _ => trivial
  · trivial

theorem writes_putGroupMember (domain name : Bytes) (m : GroupMember) :
    (Store.putGroupMember domain name m).Writes Row.key
      (Access.putGroupMember domain name m).Reach := by
  refine .bind writes_lockGroup ?_
  intro _
  refine .bind writes_refuseManaged ?_
  intro _
  refine .bind writes_member ?_
  intro _
  refine .bind (writes_attempt (writes_upsert rfl)) ?_
  intro _
  trivial

theorem writes_removeGroupMember (domain name principal : Bytes) :
    (Store.removeGroupMember domain name principal).Writes Row.key
      (Access.removeGroupMember domain name principal).Reach := by
  refine .bind writes_lockGroup ?_
  intro _
  refine .bind writes_refuseManaged ?_
  intro _
  refine .bind writes_member ?_
  intro prior
  cases prior with
  | none => trivial
  | some =>
    refine .bind (writes_attempt (writes_deleteNamed rfl)) ?_
    intro _
    trivial

theorem writes_swapGroupMember (domain name principal : Bytes)
    (expect want : Option GroupMember) :
    (Store.swapGroupMember domain name principal expect want).Writes Row.key
      (Access.swapGroupMember domain name principal expect want).Reach := by
  refine .bind writes_lockGroup ?_
  intro _
  refine .bind writes_refuseManaged ?_
  intro _
  refine .bind writes_member ?_
  intro _
  refine .bind writes_guard ?_
  intro _
  cases want with
  | none =>
    refine .bind (writes_attempt (writes_deleteNamed rfl)) ?_
    intro _
    trivial
  | some =>
    refine .bind (writes_attempt (writes_upsert rfl)) ?_
    intro _
    trivial

theorem writes_deleteEmptyGroup (domain name : Bytes) :
    (Store.deleteEmptyGroup domain name).Writes Row.key
      (Access.deleteEmptyGroup domain name).Reach := by
  refine .bind (writes_attempt writes_lock) ?_
  intro found
  split
  · refine .bind writes_refuseManaged ?_
    intro _
    refine .bind writes_query ?_
    intro _
    refine .bind writes_guard ?_
    intro _
    refine .bind (writes_attempt (writes_deleteNamed rfl)) ?_
    intro _
    trivial
  · trivial

theorem writes_restoreGroup (group : Group) :
    (Store.restoreGroup group).Writes Row.key (Access.restoreGroup group).Reach := by
  refine .bind writes_lockDomain ?_
  intro _
  refine .bind (writes_require (writes_insert (.inl rfl))) ?_
  intro _
  apply writes_insertAll
  intro row member
  obtain ⟨m, _, rfl⟩ := List.mem_map.mp member
  exact .inr ⟨m.principal, rfl⟩

theorem writes_mayAdminister (config : Config) (caller domain : Bytes) :
    (mayAdminister config caller domain).Writes Row.key reach := by
  unfold mayAdminister
  split
  · trivial
  split
  · trivial
  split
  · trivial
  · refine .bind (.bind writes_query fun _ => trivial) ?_
    intro _
    trivial

end Writes

namespace Access

theorem writes_program (config : Config) (now : Int) (access : Access) :
    (access.program config now).Writes Row.key access.Reach := by
  cases access with
  | mayAdminister caller domain =>
    exact .bind (writes_mayAdminister config caller domain) fun _ => trivial
  | getDomainRow =>
    refine .bind (.bind writes_query ?_) fun _ => trivial
    intro found
    split <;> trivial
  | adminsByDomain | scimManaged =>
    exact .bind (.bind writes_query fun _ => trivial) fun _ => trivial
  | createDomain d => exact .bind (writes_createDomain now d) fun _ => trivial
  | deleteDomain name => exact .bind (writes_deleteDomain name) fun _ => trivial
  | addDomainAdmin =>
    refine .bind (.bind writes_lockDomain ?_) fun _ => trivial
    intro _
    exact writes_attempt (writes_insert rfl)
  | removeDomainAdmin => exact .bind (writes_require (writes_deleteNamed rfl)) fun _ => trivial
  | createGroup domain name description =>
    exact .bind (writes_createGroup now domain name description) fun _ => trivial
  | deleteGroup domain name => exact .bind (writes_deleteGroup domain name) fun _ => trivial
  | putGroupMember domain name m =>
    exact .bind (writes_putGroupMember domain name m) fun _ => trivial
  | removeGroupMember domain name principal =>
    exact .bind (writes_removeGroupMember domain name principal) fun _ => trivial
  | swapGroupMember domain name principal expect want =>
    exact .bind (writes_swapGroupMember domain name principal expect want) fun _ => trivial
  | deleteEmptyGroup domain name =>
    exact .bind (writes_deleteEmptyGroup domain name) fun _ => trivial
  | restoreGroup group => exact .bind (writes_restoreGroup group) fun _ => trivial
  | appendAudit => trivial

variable {access : Access}

/-- A call leaves every row outside its reach as it was. -/
theorem lookup_run {name : Key} (outside : ¬ access.Reach name) (config : Config)
    (weather : Weather) (db : Database) :
    (access.run config weather db).2.lookup name = db.lookup name := by
  have unchanged : ((access.program config weather.now).transact Row.slots db).2.lookup name =
      db.lookup name :=
    lookup_transact_of_writes (writes_program config weather.now access) outside db
  unfold run
  cases weather.commit with
  | acknowledged | unacknowledged => exact unchanged
  | refused => rfl

/-- What a call that succeeds did. -/
theorem exec_of_run_eq_ok {config : Config} {weather : Weather} {db after : Database}
    {reply : Reply} (succeeded : access.run config weather db = (.ok reply, after)) :
    (access.program config weather.now).exec Row.slots db = (.ok reply, after) := by
  unfold run at succeeded
  cases outcome : weather.commit with
  | acknowledged =>
    rw [outcome] at succeeded
    exact Program.transact_eq_ok.mp succeeded
  | refused | unacknowledged =>
    rw [outcome] at succeeded
    cases succeeded

end Access

end OmegaPlane.Directory
