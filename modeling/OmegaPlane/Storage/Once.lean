import OmegaPlane.Data.Json
import OmegaPlane.Storage.Append

/-!
# Appending once per key

`AppendAuditOnce` records an event under a key in the transaction that writes
the event.  A later event under the key is dropped when it has the recorded
digest and otherwise leaves a conflict row.  Keys are forgotten after thirty
days, in a housekeeping step after the commit.
-/

namespace OmegaPlane.Storage

open Audit Chain Transaction

variable {σ : Type} (sha256 : Bytes → Bytes)

/-- How long a key is remembered, in nanoseconds. -/
def auditOnceRetention : Int := 30 * 24 * 60 * 60 * 1000000000

/-- The shortest time between two prunings, in nanoseconds. -/
def pruneInterval : Int := 60 * 60 * 1000000000

/-- The digest that tells two events under one key apart. -/
def eventDigest (draft : AuditDraft) : Bytes :=
  Hex.encodeToString (sha256 (draft.kind ++ [0] ++ draft.actor ++ [0] ++ draft.subject ++ [0] ++
    draft.decision ++ [0] ++ draft.payload.getD []))

/-- The event that records a different event under a used key. -/
def conflictDraft (key seen digest : Bytes) (draft : AuditDraft) : AuditDraft where
  kind := draft.kind ++ ascii ".conflict"
  actor := draft.actor
  subject := draft.subject
  decision := ascii "error"
  payload := some (Json.encode (.obj
    [(ascii "key", .str key), (ascii "recorded_digest", .str seen),
      (ascii "resent_digest", .str digest)]))

def insertOnce (row : OnceRow) : Tx (Db σ) StoreError Bool :=
  exec (.failed "audit: record key") (Db.acceptsTexts [row.key, row.digest]) fun db =>
    ((db.auditOnce.insert row).1, { db with auditOnce := (db.auditOnce.insert row).2 })

def readOnceDigest (key : Bytes) : Tx (Db σ) StoreError Bytes := do
  let found ← exec (.failed "audit: read key") (Db.acceptsTexts [key]) fun db =>
    (db.auditOnce.lookup key, db)
  match found with
  | none => throw (.failed "audit: read key")
  | some row => return row.digest

/-- The transaction of `AppendAuditOnce`. -/
def appendOnceTx (s : Store σ) (call : Call) (key : Bytes) (draft : AuditDraft) :
    Tx (Db σ) StoreError (Ending Bool) := do
  let digest := eventDigest sha256 draft
  let inserted ← insertOnce ⟨key, digest, call.now⟩
  if inserted then
    let _ ← appendAuditTx sha256 s call draft
    return .commit true
  else
    let seen ← readOnceDigest key
    if seen = digest then
      return .rollback false
    else
      let _ ← appendAuditTx sha256 s call (conflictDraft key seen digest draft)
      return .commit false

/-- Housekeeping after the event committed, at most hourly; a failure is only
logged. -/
def pruneOnce (s : Store σ) (call : Call) : Store σ :=
  if s.oncePrunedAt.all fun last => pruneInterval < call.now - last then
    { s with
      oncePrunedAt := some call.now
      db :=
        if call.prunes then
          { s.db with
            auditOnce := s.db.auditOnce.filter fun row =>
              call.now - auditOnceRetention ≤ row.createdAt }
        else s.db }
  else s

/-- Append an event unless one was appended under the key, and report whether
it was appended. -/
def appendAuditOnce (s : Store σ) (call : Call) (key : Bytes) (draft : AuditDraft) :
    Store σ × Except StoreError Bool :=
  if !s.isLeader then (s, .error .notLeader)
  else if draft.kind = [] ∨ key = [] then
    (s, .error (.refused "audit: kind and key are required"))
  else
    match transact (.failed "audit: begin tx") (.failed "audit: commit") call.faults s.db
        (appendOnceTx sha256 s call key draft) with
    | (db, .ok (.commit true)) => (pruneOnce { s with db := db }.auditCommitted call, .ok true)
    | (db, .ok (.commit false)) => ({ s with db := db }.auditCommitted, .ok false)
    | (db, .ok (.rollback appended)) => ({ s with db := db }, .ok appended)
    | (db, .error err) => ({ s with db := db }, .error err)

@[simp]
theorem pruneOnce_auditLog (s : Store σ) (call : Call) :
    (pruneOnce s call).db.auditLog = s.db.auditLog := by
  unfold pruneOnce
  split
  · simp only
    split <;> rfl
  · rfl

@[simp]
theorem pruneOnce_policies (s : Store σ) (call : Call) :
    (pruneOnce s call).db.policies = s.db.policies := by
  unfold pruneOnce
  split
  · simp only
    split <;> rfl
  · rfl

@[simp]
theorem pruneOnce_keyedFromSeq (s : Store σ) (call : Call) :
    (pruneOnce s call).db.keyedFromSeq = s.db.keyedFromSeq := by
  unfold pruneOnce
  split
  · simp only
    split <;> rfl
  · rfl

@[simp]
theorem pruneOnce_auditKeyring (s : Store σ) (call : Call) :
    (pruneOnce s call).auditKeyring = s.auditKeyring := by
  unfold pruneOnce
  split <;> rfl

@[simp]
theorem pruneOnce_keyedEpochRecorded (s : Store σ) (call : Call) :
    (pruneOnce s call).keyedEpochRecorded = s.keyedEpochRecorded := by
  unfold pruneOnce
  split <;> rfl

@[simp]
theorem pruneOnce_driver (s : Store σ) (call : Call) :
    (pruneOnce s call).db.driver = s.db.driver := by
  unfold pruneOnce
  split
  · simp only
    split <;> rfl
  · rfl

@[simp]
theorem pruneOnce_leader (s : Store σ) (call : Call) : (pruneOnce s call).leader = s.leader := by
  unfold pruneOnce
  split <;> rfl

variable {sha256}

theorem insertOnce_yields (row : OnceRow) (db : Db σ) :
    Yields (insertOnce row) db fun inserted after =>
      inserted = (db.auditOnce.insert row).1 ∧
        after = { db with auditOnce := (db.auditOnce.insert row).2 } :=
  yields_exec.mono fun _ _ ran => ran.2

theorem readOnceDigest_yields (key : Bytes) (db : Db σ) :
    Yields (readOnceDigest key) db fun seen after =>
      after = db ∧ ∃ row, db.auditOnce.lookup key = some row ∧ row.digest = seen := by
  unfold readOnceDigest
  refine yields_bind yields_exec ?_
  rintro found after ⟨-, foundEq, afterEq⟩
  subst found after
  cases taken : db.auditOnce.lookup key with
  | none => exact yields_throw
  | some row => exact yields_pure ⟨rfl, row, rfl, rfl⟩

/-- What a transaction of `AppendAuditOnce` that got through did. -/
inductive OnceEffect (sha256 : Bytes → Bytes) (s : Store σ) (call : Call) (key : Bytes)
    (draft : AuditDraft) (before : Db σ) : Ending Bool → Db σ → Prop where
  | recorded {after : Db σ} (ev : AuditEvent) (free : before.auditOnce.lookup key = none)
      (writes : WritesRow sha256 s call draft before ev after)
      (once : after.auditOnce =
        (before.auditOnce.insert ⟨key, eventDigest sha256 draft, call.now⟩).2)
      (driver : after.driver = before.driver) (policies : after.policies = before.policies)
      (provisioned : after.provisioned = before.provisioned) :
      OnceEffect sha256 s call key draft before (.commit true) after
  | repeated {after : Db σ} (row : OnceRow) (taken : before.auditOnce.lookup key = some row)
      (same : row.digest = eventDigest sha256 draft) (unchanged : after = before) :
      OnceEffect sha256 s call key draft before (.rollback false) after
  | conflicting {after : Db σ} (row : OnceRow) (ev : AuditEvent)
      (taken : before.auditOnce.lookup key = some row)
      (different : row.digest ≠ eventDigest sha256 draft)
      (writes : WritesRow sha256 s call
        (conflictDraft key row.digest (eventDigest sha256 draft) draft) before ev after)
      (keeps : KeepsRest before after) :
      OnceEffect sha256 s call key draft before (.commit false) after

theorem appendOnceTx_yields (s : Store σ) (call : Call) (key : Bytes) (draft : AuditDraft)
    (db : Db σ) :
    Yields (appendOnceTx sha256 s call key draft) db (OnceEffect sha256 s call key draft db) := by
  unfold appendOnceTx
  refine yields_bind (insertOnce_yields _ db) ?_
  rintro _ _ ⟨rfl, rfl⟩
  cases taken : db.auditOnce.lookup key with
  | none =>
    have inserted := @Table.insert_of_none _ _ OnceRow.key _ db.auditOnce
      ⟨key, eventDigest sha256 draft, call.now⟩ taken
    simp only [inserted.1, if_true]
    refine yields_bind (appendAuditTx_yields s call draft _) ?_
    rintro ev after ⟨writes, keeps⟩
    apply yields_pure
    exact .recorded ev taken ⟨writes.row, writes.rows, writes.nextSeq, writes.keyedFromSeq⟩
      keeps.auditOnce keeps.driver keeps.policies keeps.provisioned
  | some row =>
    have refused := @Table.insert_of_some _ _ OnceRow.key _ db.auditOnce
      ⟨key, eventDigest sha256 draft, call.now⟩ row taken
    simp only [refused, Bool.false_eq_true, if_false]
    refine yields_bind (readOnceDigest_yields key db) ?_
    rintro seen after ⟨afterEq, row', taken', seenEq⟩
    subst after seen
    obtain rfl : row = row' := Option.some.inj (taken.symm.trans taken')
    by_cases same : row.digest = eventDigest sha256 draft
    · simp only [same, if_true]
      exact yields_pure (.repeated row taken same rfl)
    · simp only [same, if_false]
      refine yields_bind (appendAuditTx_yields s call _ db) ?_
      rintro ev after ⟨writes, keeps⟩
      exact yields_pure (.conflicting row ev taken same writes keeps)

/-! ## On SQLite and on Postgres -/

theorem readOnceDigest_runs {key : Bytes} {row : OnceRow} {db : Db σ}
    (driver : db.driver = .sqlite) (taken : db.auditOnce.lookup key = some row) :
    Runs (readOnceDigest key) db fun _ after => after = db := by
  unfold readOnceDigest
  refine runs_bind (runs_exec (acceptsTexts_of_sqlite driver _)) ?_
  rintro found after ⟨rfl, rfl⟩
  rw [taken]
  exact runs_pure rfl

theorem appendOnceTx_runs (s : Store σ) (call : Call) (key : Bytes) (draft : AuditDraft)
    {db : Db σ} (driver : db.driver = .sqlite) :
    Runs (appendOnceTx sha256 s call key draft) db fun _ after => after.driver = .sqlite := by
  unfold appendOnceTx
  refine runs_bind (runs_exec (acceptsTexts_of_sqlite driver _)) ?_
  rintro _ _ ⟨rfl, rfl⟩
  cases taken : db.auditOnce.lookup key with
  | none =>
    have inserted := @Table.insert_of_none _ _ OnceRow.key _ db.auditOnce
      ⟨key, eventDigest sha256 draft, call.now⟩ taken
    simp only [inserted.1, if_true]
    refine runs_bind (appendAuditTx_runs s call draft driver) ?_
    exact fun _ _ after => runs_pure after
  | some row =>
    have refused := @Table.insert_of_some _ _ OnceRow.key _ db.auditOnce
      ⟨key, eventDigest sha256 draft, call.now⟩ row taken
    simp only [refused, Bool.false_eq_true, if_false]
    refine runs_bind (readOnceDigest_runs driver taken) ?_
    rintro seen after afterEq
    subst after
    split
    · exact runs_pure driver
    · refine runs_bind (appendAuditTx_runs s call _ driver) ?_
      exact fun _ _ after => runs_pure after

/-- On SQLite an append under any key succeeds as long as nothing fails. -/
theorem appendAuditOnce_sqlite {s : Store σ} {call : Call} {key : Bytes} {draft : AuditDraft}
    (driver : s.db.driver = .sqlite) (leads : s.isLeader = true)
    (clean : call.faults = .none) (kind : draft.kind ≠ []) (named : key ≠ []) :
    ∃ appended, (appendAuditOnce sha256 s call key draft).2 = .ok appended ∧
      (appendAuditOnce sha256 s call key draft).1.db.driver = .sqlite ∧
      (appendAuditOnce sha256 s call key draft).1.isLeader = true := by
  obtain ⟨ending, db', driver', ends⟩ := transact_of_runs (.failed "audit: begin tx")
    (.failed "audit: commit") (@appendOnceTx_runs _ sha256 s call key draft _ driver)
  have guards : ¬(draft.kind = [] ∨ key = []) := by simp [kind, named]
  rw [appendAuditOnce, leads, clean, if_neg (by simp), if_neg guards]
  rcases ends with ⟨appended, -, committed⟩ | ⟨appended, -, rolledBack⟩
  · rw [committed]
    cases appended with
    | true => exact ⟨true, rfl, by simpa using driver', by simpa [Store.isLeader] using leads⟩
    | false => exact ⟨false, rfl, by simpa using driver', by simpa [Store.isLeader] using leads⟩
  · rw [rolledBack]
    exact ⟨appended, rfl, driver, leads⟩

/-- On Postgres a key with a NUL is refused, whatever else happens. -/
theorem appendAuditOnce_postgres_nul {s : Store σ} {call : Call} {key : Bytes}
    {draft : AuditDraft} (driver : s.db.driver = .postgres) (nul : 0 ∈ key) :
    ∃ err, appendAuditOnce sha256 s call key draft = (s, .error err) := by
  unfold appendAuditOnce
  split
  · exact ⟨_, rfl⟩
  split
  · exact ⟨_, rfl⟩
  have refused : Db.acceptsTexts [key, eventDigest sha256 draft] s.db = false := by
    simp [Db.acceptsTexts, driver, Driver.acceptsText, nul]
  obtain ⟨err, failed⟩ : ∃ err, transact (.failed "audit: begin tx") (.failed "audit: commit")
      call.faults s.db (appendOnceTx sha256 s call key draft) = (s.db, .error err) :=
    transact_of_refused refused
  rw [failed]
  exact ⟨err, rfl⟩

end OmegaPlane.Storage
