import OmegaPlane.Storage.Append

/-!
# Changes recorded in their own transaction

A policy change and a provisioning change commit together with the audit row
that records them.
-/

namespace OmegaPlane.Storage

open Audit Chain Transaction

variable {σ : Type} (sha256 : Bytes → Bytes)

/-! ## Stored policies -/

/-- The hex SHA-256 of a policy's text. -/
def policyDigest (text : Bytes) : Bytes :=
  Hex.encodeToString (sha256 text)

/-- Decides a write to one stored policy from the row as it is: the row to
write, or none to delete it, and the event that records the change. -/
abbrev PolicyChange := Option Policy → Except StoreError (Option Policy × AuditDraft)

/-- The row written for a change: a new row starts at version one, an existing
one keeps its creation and counts up. -/
def writtenPolicy (id : Bytes) (now : Int) (cur : Option Policy) (next : Policy) : Policy :=
  match cur with
  | none =>
    { id := id, text := next.text, version := 1, createdBy := next.updatedBy,
      createdAt := now, updatedBy := next.updatedBy, updatedAt := now }
  | some row =>
    { row with
      text := next.text
      version := row.version + 1
      updatedBy := next.updatedBy
      updatedAt := now }

def selectPolicy (id : Bytes) : Tx (Db σ) StoreError (Option Policy) :=
  exec (.failed "query policy") (Db.acceptsTexts [id]) fun db => (db.policies.lookup id, db)

def deletePolicy (id : Bytes) : Tx (Db σ) StoreError Unit :=
  exec (.failed "delete policy") (Db.acceptsTexts [id]) fun db =>
    ((), { db with policies := db.policies.delete id })

def insertPolicy (row : Policy) : Tx (Db σ) StoreError Unit := do
  let inserted ← exec (.failed "insert policy")
    (Db.acceptsTexts [row.id, row.text, row.createdBy, row.updatedBy]) fun db =>
      ((db.policies.insert row).1, { db with policies := (db.policies.insert row).2 })
  if !inserted then
    throw .alreadyExists

def updatePolicy (row : Policy) : Tx (Db σ) StoreError Unit :=
  exec (.failed "update policy") (Db.acceptsTexts [row.text, row.updatedBy, row.id]) fun db =>
    ((), { db with policies := db.policies.update row })

/-- The write a change asks for. -/
def writePolicy (id : Bytes) (now : Int) (cur next : Option Policy) :
    Tx (Db σ) StoreError (Option Policy) :=
  match next, cur with
  | none, none => throw .notFound
  | none, some _ => do
    deletePolicy id
    return none
  | some row, none => do
    insertPolicy (writtenPolicy id now none row)
    return some (writtenPolicy id now none row)
  | some row, some old => do
    updatePolicy (writtenPolicy id now (some old) row)
    return some (writtenPolicy id now (some old) row)

/-- The transaction of `ChangePolicy`. -/
def changePolicyTx (s : Store σ) (call : Call) (id : Bytes) (change : PolicyChange) :
    Tx (Db σ) StoreError (Ending (Option Policy × AuditEvent)) := do
  let cur ← selectPolicy id
  match change cur with
  | .error err => throw err
  | .ok (next, draft) =>
    if draft.kind = [] then
      throw (.refused "policy change: audit kind is required")
    else
      let written ← writePolicy id call.now cur next
      let ev ← appendAuditTx sha256 s call draft
      return .commit (written, ev)

/-- Apply a change to a stored policy together with its audit row. -/
def changePolicy (s : Store σ) (call : Call) (id : Bytes) (change : PolicyChange) :
    Store σ × Except StoreError (Option Policy × AuditEvent) :=
  if !s.isLeader then (s, .error .notLeader)
  else
    match transact (.failed "begin") (.failed "commit") call.faults s.db
        (changePolicyTx sha256 s call id change) with
    | (db, .ok (.commit result)) => ({ s with db := db }.auditCommitted, .ok result)
    | (db, .ok (.rollback result)) => ({ s with db := db }, .ok result)
    | (db, .error err) => ({ s with db := db }, .error err)

/-! ## Provisioning -/

/-- The work of a provisioning call, the group rebuild included: it reads and
writes the provisioned tables and names the event to record, with an empty kind
for none. -/
abbrev Provisioning (σ : Type) := σ → Except StoreError (AuditDraft × σ)

/-- The work on the provisioned tables; a refusal leaves them as they are. -/
def Db.runProvisioning (work : Provisioning σ) (db : Db σ) : Except StoreError AuditDraft × Db σ :=
  match work db.provisioned with
  | .error err => (.error err, db)
  | .ok (draft, provisioned) => (.ok draft, { db with provisioned := provisioned })

def provision (work : Provisioning σ) : Tx (Db σ) StoreError AuditDraft := do
  let outcome ← exec (.failed "scim") (fun _ => true) (Db.runProvisioning work)
  match outcome with
  | .error err => throw err
  | .ok draft => return draft

/-- The transaction of `SCIM`. -/
def scimTx (s : Store σ) (call : Call) (work : Provisioning σ) :
    Tx (Db σ) StoreError (Ending (Option AuditEvent)) := do
  let draft ← provision work
  if draft.kind = [] then
    return .commit none
  else
    let ev ← appendAuditTx sha256 s call draft
    return .commit (some ev)

/-- Run a provisioning call in one transaction with the event it names. -/
def scim (s : Store σ) (call : Call) (work : Provisioning σ) :
    Store σ × Except StoreError (Option AuditEvent) :=
  if !s.isLeader then (s, .error .notLeader)
  else
    match transact (.failed "begin") (.failed "commit") call.faults s.db
        (scimTx sha256 s call work) with
    | (db, .ok (.commit (some ev))) => ({ s with db := db }.auditCommitted, .ok (some ev))
    | (db, .ok (.commit none)) => ({ s with db := db }, .ok none)
    | (db, .ok (.rollback result)) => ({ s with db := db }, .ok result)
    | (db, .error err) => ({ s with db := db }, .error err)

/-! ## What the transactions do -/

variable {sha256}

/-- The chain and its epoch are the same. -/
structure KeepsAudit (before after : Db σ) : Prop where
  auditLog : after.auditLog = before.auditLog
  keyedFromSeq : after.keyedFromSeq = before.keyedFromSeq

theorem WritesRow.of_keepsAudit {s : Store σ} {call : Call} {draft : AuditDraft}
    {before middle after : Db σ} {ev : AuditEvent} (keeps : KeepsAudit before middle)
    (writes : WritesRow sha256 s call draft middle ev after) :
    WritesRow sha256 s call draft before ev after := by
  obtain ⟨row, rows, nextSeq, keyedFromSeq⟩ := writes
  rw [keeps.auditLog] at row rows nextSeq
  rw [keeps.keyedFromSeq] at keyedFromSeq
  exact ⟨row, rows, nextSeq, keyedFromSeq⟩

/-- What a policy write that got through did. -/
structure PolicyWrite (id : Bytes) (now : Int) (next : Option Policy) (before : Db σ)
    (written : Option Policy) (after : Db σ) : Prop where
  result : written = next.map (writtenPolicy id now (before.policies.lookup id))
  table : ∀ name, after.policies.lookup name =
    if id = name then written else before.policies.lookup name
  audit : KeepsAudit before after
  auditOnce : after.auditOnce = before.auditOnce

theorem selectPolicy_yields (id : Bytes) (db : Db σ) : Yields (selectPolicy id) db fun cur after =>
      cur = db.policies.lookup id ∧ after = db :=
  yields_exec.mono fun _ _ ran => ran.2

variable {db : Db σ}

theorem insertPolicy_yields {row : Policy} (free : db.policies.lookup row.id = none) :
    Yields (insertPolicy row) db fun _ after =>
      after = { db with policies := (db.policies.insert row).2 } := by
  unfold insertPolicy
  refine yields_bind yields_exec ?_
  rintro _ _ ⟨-, rfl, rfl⟩
  rw [(Table.insert_of_none free).1]
  exact yields_pure rfl

theorem writePolicy_yields {id : Bytes} {now : Int} {next : Option Policy} :
    Yields (writePolicy id now (db.policies.lookup id) next) db (PolicyWrite id now next db) := by
  cases present : db.policies.lookup id with
  | none =>
    cases next with
    | none => exact yields_throw
    | some row =>
    have free : db.policies.lookup (writtenPolicy id now none row).id = none := present
    refine yields_bind (insertPolicy_yields free) ?_
    rintro _ _ rfl
    apply yields_pure
    constructor
    · rw [present]
      rfl
    · intro name
      exact Table.lookup_insert_of_none free name
    · exact ⟨rfl, rfl⟩
    · rfl
  | some old =>
    have oldID : old.id = id := (Table.lookup_eq_some_iff.mp present).2
    cases next with
    | none =>
      refine yields_bind yields_exec ?_
      rintro _ _ ⟨-, -, rfl⟩
      apply yields_pure
      constructor
      · rfl
      · intro name
        rw [Table.lookup_delete]
        simp only [eq_comm]
      · exact ⟨rfl, rfl⟩
      · rfl
    | some row =>
      refine yields_bind yields_exec ?_
      rintro _ _ ⟨-, -, rfl⟩
      apply yields_pure
      have sameKey : (writtenPolicy id now (some old) row).id = id := oldID
      have replaced : db.policies.lookup (writtenPolicy id now (some old) row).id = some old := by
        rw [sameKey]
        exact present
      constructor
      · rw [present]
        rfl
      · intro name
        rw [Table.lookup_update replaced, sameKey]
      · exact ⟨rfl, rfl⟩
      · rfl

/-- What a transaction of `ChangePolicy` that got through did. -/
structure PolicyEffect (sha256 : Bytes → Bytes) (s : Store σ) (call : Call) (id : Bytes)
    (change : PolicyChange) (before : Db σ) (result : Option Policy × AuditEvent)
    (after : Db σ) : Prop where
  decided : ∃ next draft, change (before.policies.lookup id) = .ok (next, draft) ∧
    draft.kind ≠ [] ∧
    result.1 = next.map (writtenPolicy id call.now (before.policies.lookup id)) ∧
    WritesRow sha256 s call draft before result.2 after
  table : ∀ name, after.policies.lookup name =
    if id = name then result.1 else before.policies.lookup name
  auditOnce : after.auditOnce = before.auditOnce

theorem changePolicyTx_yields (s : Store σ) (call : Call) (id : Bytes) (change : PolicyChange)
    (db : Db σ) :
    Yields (changePolicyTx sha256 s call id change) db fun ending after =>
      ∃ result, ending = .commit result ∧ PolicyEffect sha256 s call id change db result after := by
  unfold changePolicyTx
  refine yields_bind (selectPolicy_yields id db) ?_
  rintro cur after ⟨curEq, afterEq⟩
  subst cur after
  cases decision : change (db.policies.lookup id) with
  | error => exact yields_throw
  | ok decided =>
  obtain ⟨next, draft⟩ := decided
  by_cases noKind : draft.kind = []
  · simp only [noKind, if_true]
    exact yields_throw
  simp only [noKind, if_false]
  refine yields_bind writePolicy_yields ?_
  rintro written middle write
  refine yields_bind (appendAuditTx_yields s call draft middle) ?_
  rintro ev after ⟨writes, keeps⟩
  apply yields_pure
  refine ⟨(written, ev), rfl, ?_⟩
  constructor
  · exact ⟨next, draft, decision, noKind, write.result,
      writes.of_keepsAudit write.audit⟩
  · intro name
    rw [keeps.policies]
    exact write.table name
  · rw [keeps.auditOnce]
    exact write.auditOnce

/-- What a transaction of `SCIM` that got through did. -/
inductive ScimEffect (sha256 : Bytes → Bytes) (s : Store σ) (call : Call)
    (work : Provisioning σ) (before : Db σ) : Option AuditEvent → Db σ → Prop where
  | silent {after : Db σ} (audit : KeepsAudit before after)
      (policies : after.policies = before.policies)
      (auditOnce : after.auditOnce = before.auditOnce) :
      ScimEffect sha256 s call work before none after
  | recorded {after : Db σ} (draft : AuditDraft) (ev : AuditEvent)
      (named : ∃ provisioned, work before.provisioned = .ok (draft, provisioned))
      (writes : WritesRow sha256 s call draft before ev after)
      (policies : after.policies = before.policies)
      (auditOnce : after.auditOnce = before.auditOnce) :
      ScimEffect sha256 s call work before (some ev) after

theorem provision_yields (work : Provisioning σ) (db : Db σ) :
    Yields (provision work) db fun draft after =>
      (∃ provisioned, work db.provisioned = .ok (draft, provisioned)) ∧
        KeepsAudit db after ∧ after.policies = db.policies ∧ after.auditOnce = db.auditOnce := by
  unfold provision
  refine yields_bind yields_exec ?_
  rintro _ _ ⟨-, rfl, rfl⟩
  unfold Db.runProvisioning
  cases outcome : work db.provisioned with
  | error => exact yields_throw
  | ok named => exact yields_pure ⟨⟨named.2, rfl⟩, ⟨rfl, rfl⟩, rfl, rfl⟩

theorem scimTx_yields (s : Store σ) (call : Call) (work : Provisioning σ) (db : Db σ) :
    Yields (scimTx sha256 s call work) db fun ending after =>
      ∃ result, ending = .commit result ∧ ScimEffect sha256 s call work db result after := by
  unfold scimTx
  refine yields_bind (provision_yields work db) ?_
  rintro draft middle ⟨named, audit, policies, auditOnce⟩
  split
  · exact yields_pure ⟨none, rfl, .silent audit policies auditOnce⟩
  refine yields_bind (appendAuditTx_yields s call draft middle) ?_
  rintro ev after ⟨writes, keeps⟩
  apply yields_pure
  exact ⟨some ev, rfl, .recorded draft ev named (writes.of_keepsAudit audit)
    (keeps.policies.trans policies) (keeps.auditOnce.trans auditOnce)⟩

end OmegaPlane.Storage
