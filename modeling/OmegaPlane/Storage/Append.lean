import OmegaPlane.Storage.Tables
import OmegaPlane.Transaction.Core

/-!
# Appending to the audit chain

The store and the transaction body that writes one row of the chain: it reads
the last hash, inserts the row with a placeholder, sets the hash over the number
the insert returned, and records the keying epoch with the first keyed row.
-/

namespace OmegaPlane.Storage

open Audit Chain Transaction

/-- Errors of the store: its sentinel errors, a refused argument, and a failed
statement with the words its message starts with. -/
inductive StoreError where
  | notLeader
  | notFound
  | alreadyExists
  | refused (reason : String)
  | failed (doing : String)
  deriving DecidableEq

/-- What a caller fills of an audit event.  A zero time and a nil payload are
`none`. -/
structure AuditDraft where
  ts : Option Int := none
  kind : Bytes
  actor : Bytes := []
  subject : Bytes := []
  decision : Bytes := []
  payload : Option Bytes := none
  deriving DecidableEq

/-- The row for a draft before its hash is known; an absent payload is
stored as an empty object. -/
def AuditDraft.row (draft : AuditDraft) (stamp : Int) (keyID prev : Bytes) (seq : Int) :
    AuditEvent where
  seq := seq
  ts := draft.ts.getD stamp
  kind := draft.kind
  actor := draft.actor
  subject := draft.subject
  decision := draft.decision
  payload := draft.payload.getD (ascii "\x7b\x7d")
  prevHash := prev
  hash := ascii "pending"
  keyID := keyID

/-- The leadership flags of a process. -/
structure Leadership where
  enabled : Bool
  isLeader : Bool
  deriving DecidableEq

/-- The store of one process: the database and what the process keeps in
memory. -/
structure Store (σ : Type) where
  db : Db σ
  leader : Leadership
  auditKeyring : Option AuditKeyring
  keyedEpochRecorded : Bool
  oncePrunedAt : Option Int

/-- What a call meets: the clock when it starts and when it writes the row, how
far the sequence generator has moved on, what the database does to its
transaction, and whether housekeeping after the commit succeeds. -/
structure Call where
  now : Int
  stamp : Int
  gap : Nat
  faults : Faults
  prunes : Bool

/-- A call at a time on a database that fails nowhere. -/
def Call.clean (now : Int) : Call :=
  ⟨now, now, 0, .none, true⟩

variable {σ : Type}

namespace Store

/-- A process that has opened a fresh database. -/
def opened (driver : Driver) (provisioned : σ) (leader : Leadership)
    (keyring : Option AuditKeyring) : Store σ :=
  ⟨.empty driver provisioned, leader, keyring, false, none⟩

def isLeader (s : Store σ) : Bool :=
  if s.leader.enabled then s.leader.isLeader else true

/-- The key id and key a new row is authenticated under. -/
def signingKey (s : Store σ) : Bytes × Bytes :=
  match s.auditKeyring with
  | none => (keyIDUnkeyed, [])
  | some keyring => keyring.active

/-- The id-to-secret map of the loaded keyring. -/
def keySnap (s : Store σ) : Option KeySet :=
  s.auditKeyring.map AuditKeyring.snapshot

/-- The keying epoch a verification walk reads: none without a keyring. -/
def readEpoch (s : Store σ) : Option Int :=
  if s.auditKeyring.isSome then s.db.keyedFromSeq else none

/-- Runs after a transaction holding an audit row commits. -/
def auditCommitted (s : Store σ) : Store σ :=
  if s.auditKeyring.isSome then { s with keyedEpochRecorded := true } else s

end Store

@[simp]
theorem auditCommitted_db (s : Store σ) : s.auditCommitted.db = s.db := by
  unfold Store.auditCommitted
  split <;> rfl

@[simp]
theorem auditCommitted_auditKeyring (s : Store σ) :
    s.auditCommitted.auditKeyring = s.auditKeyring := by
  unfold Store.auditCommitted
  split <;> rfl

theorem auditCommitted_recorded {s : Store σ}
    (recorded : s.auditCommitted.keyedEpochRecorded = true) :
    s.keyedEpochRecorded = true ∨ s.auditKeyring.isSome = true := by
  unfold Store.auditCommitted at recorded
  split at recorded
  · rename_i loaded
    exact .inr loaded
  · exact .inl recorded

@[simp]
theorem auditCommitted_leader (s : Store σ) : s.auditCommitted.leader = s.leader := by
  unfold Store.auditCommitted
  split <;> rfl

/-! ## Statements -/

def lastAuditHash : Tx (Db σ) StoreError Bytes :=
  exec (.failed "audit: last hash") (fun _ => true) fun db =>
    (db.auditLog.lastHash.getD genesisHash, db)

def insertAuditRow (gap : Nat) (row : AuditEvent) : Tx (Db σ) StoreError Int :=
  exec (.failed "audit: insert")
    (Db.acceptsTexts [row.kind, row.actor, row.subject, row.decision, row.payload,
      row.prevHash, row.hash, row.keyID])
    fun db =>
      ((db.auditLog.insert gap row).1, { db with auditLog := (db.auditLog.insert gap row).2 })

def updateAuditHash (seq : Int) (hash : Bytes) : Tx (Db σ) StoreError Unit :=
  exec (.failed "audit: update hash") (Db.acceptsTexts [hash]) fun db =>
    ((), { db with auditLog := db.auditLog.setHash seq hash })

/-- Record the keying epoch unless it is recorded. -/
def recordKeyedFromSeq (seq : Int) : Tx (Db σ) StoreError Unit :=
  exec (.failed "audit: record keying epoch") (fun _ => true) fun db =>
    ((), { db with keyedFromSeq := db.keyedFromSeq.or (some seq) })

/-! ## The body -/

variable (sha256 : Bytes → Bytes)

/-- Write one event inside a transaction. -/
def appendAuditTx (s : Store σ) (call : Call) (draft : AuditDraft) :
    Tx (Db σ) StoreError AuditEvent := do
  let prev ← lastAuditHash
  let seq ← insertAuditRow call.gap (draft.row call.stamp s.signingKey.1 prev 0)
  let ev := sealRow sha256 (draft.row call.stamp s.signingKey.1 prev seq) s.signingKey.2
  updateAuditHash seq ev.hash
  if s.auditKeyring.isSome && !s.keyedEpochRecorded then
    recordKeyedFromSeq seq
  return ev

/-- Write one event to the chain. -/
def appendAudit (s : Store σ) (call : Call) (draft : AuditDraft) :
    Store σ × Except StoreError AuditEvent :=
  if !s.isLeader then (s, .error .notLeader)
  else if draft.kind = [] then (s, .error (.refused "audit: kind is required"))
  else
    match transact (.failed "audit: begin tx") (.failed "audit: commit") call.faults s.db
        (do return .commit (← appendAuditTx sha256 s call draft)) with
    | (db, .ok (.commit ev)) => ({ s with db := db }.auditCommitted, .ok ev)
    | (db, .ok (.rollback ev)) => ({ s with db := db }, .ok ev)
    | (db, .error err) => ({ s with db := db }, .error err)

/-- Walk the chain of the store. -/
def verifyAudit (s : Store σ) (anchor : Option AuditAnchor) : AuditVerification :=
  verifyRows sha256 s.keySnap s.readEpoch anchor s.db.auditLog.rows

/-! ## What the body writes -/

variable {sha256}

/-- `after` holds one more row than `before`: the sealed row for `draft`. -/
structure WritesRow (sha256 : Bytes → Bytes) (s : Store σ) (call : Call) (draft : AuditDraft)
    (before : Db σ) (ev : AuditEvent) (after : Db σ) : Prop where
  row : ev = sealRow sha256
    (draft.row call.stamp s.signingKey.1 (tip AuditEvent.hash genesisHash before.auditLog.rows)
      (before.auditLog.nextSeq + call.gap)) s.signingKey.2
  rows : after.auditLog.rows = before.auditLog.rows ++ [ev]
  nextSeq : after.auditLog.nextSeq = before.auditLog.nextSeq + call.gap + 1
  keyedFromSeq : after.keyedFromSeq =
    if s.auditKeyring.isSome && !s.keyedEpochRecorded then before.keyedFromSeq.or (some ev.seq)
    else before.keyedFromSeq

/-- The tables besides the chain and its epoch are the same. -/
structure KeepsRest (before after : Db σ) : Prop where
  driver : after.driver = before.driver
  auditOnce : after.auditOnce = before.auditOnce
  policies : after.policies = before.policies
  provisioned : after.provisioned = before.provisioned

section Written

variable {s : Store σ} {call : Call} {draft : AuditDraft} {before after : Db σ} {ev : AuditEvent}

section

variable (writes : WritesRow sha256 s call draft before ev after)
include writes

/-- The number of the row a store writes is drawn from the generator. -/
theorem WritesRow.seq : ev.seq = before.auditLog.nextSeq + call.gap := by
  rw [writes.row]
  rfl

theorem WritesRow.prevHash :
    ev.prevHash = tip AuditEvent.hash genesisHash before.auditLog.rows := by
  rw [writes.row]
  rfl

theorem WritesRow.seq_lt {row : AuditEvent}
    (member : row ∈ before.auditLog.rows) : row.seq < ev.seq := by
  have bound := (before.auditLog.assigned row member).2
  rw [writes.seq]
  omega

/-- A row before the epoch stays before it: an epoch recorded with the new row
is the new row's number. -/
theorem WritesRow.pastEpoch_eq_false {row : AuditEvent} (member : row ∈ before.auditLog.rows)
    (early : pastEpoch before.keyedFromSeq row = false) :
    pastEpoch after.keyedFromSeq row = false := by
  rw [writes.keyedFromSeq]
  split
  · cases known : before.keyedFromSeq with
    | none => simpa [pastEpoch] using writes.seq_lt member
    | some =>
      rw [known] at early
      exact early
  · exact early

end

end Written

theorem lastAuditHash_yields (db : Db σ) : Yields lastAuditHash db fun prev after =>
      prev = tip AuditEvent.hash genesisHash db.auditLog.rows ∧ after = db :=
  yields_exec.mono fun _ _ ran => ran.2

theorem insertAuditRow_yields (gap : Nat) (row : AuditEvent) (db : Db σ) :
    Yields (insertAuditRow gap row) db fun seq after =>
      seq = db.auditLog.nextSeq + gap ∧
        after = { db with auditLog := (db.auditLog.insert gap row).2 } :=
  yields_exec.mono fun _ _ ran => ran.2

theorem updateAuditHash_yields (seq : Int) (hash : Bytes) (db : Db σ) :
    Yields (updateAuditHash seq hash) db fun _ after =>
      after = { db with auditLog := db.auditLog.setHash seq hash } :=
  yields_exec.mono fun _ _ ran => ran.2.2

theorem recordKeyedFromSeq_yields (seq : Int) (db : Db σ) :
    Yields (recordKeyedFromSeq seq) db fun _ after =>
      after = { db with keyedFromSeq := db.keyedFromSeq.or (some seq) } :=
  yields_exec.mono fun _ _ ran => ran.2.2

theorem appendAuditTx_yields (s : Store σ) (call : Call) (draft : AuditDraft) (db : Db σ) :
    Yields (appendAuditTx sha256 s call draft) db fun ev after =>
      WritesRow sha256 s call draft db ev after ∧ KeepsRest db after := by
  unfold appendAuditTx
  refine yields_bind (lastAuditHash_yields db) ?_
  rintro prev after ⟨prevEq, afterEq⟩
  subst prev after
  refine yields_bind (insertAuditRow_yields _ _ db) ?_
  rintro _ _ ⟨rfl, rfl⟩
  refine yields_bind (updateAuditHash_yields _ _ _) ?_
  rintro _ _ rfl
  -- both branches leave the same chain
  have rowsEq := db.auditLog.rows_setHash_insert call.gap
    (draft.row call.stamp s.signingKey.1 (tip AuditEvent.hash genesisHash db.auditLog.rows) 0)
    (sealRow sha256 (draft.row call.stamp s.signingKey.1
      (tip AuditEvent.hash genesisHash db.auditLog.rows) (db.auditLog.nextSeq + call.gap))
      s.signingKey.2).hash
  by_cases first : (s.auditKeyring.isSome && !s.keyedEpochRecorded) = true
  · simp only [first, if_true]
    refine yields_bind (recordKeyedFromSeq_yields _ _) ?_
    rintro _ _ rfl
    apply yields_pure
    exact ⟨⟨rfl, rowsEq, rfl, by simp only [first, if_true]; rfl⟩, ⟨rfl, rfl, rfl, rfl⟩⟩
  · simp only [Bool.not_eq_true] at first
    simp only [first, Bool.false_eq_true, if_false]
    apply yields_pure
    exact ⟨⟨rfl, rowsEq, rfl, by simp [first]⟩, ⟨rfl, rfl, rfl, rfl⟩⟩

/-! ## On SQLite -/

variable {db : Db σ}

/-- SQLite takes every text. -/
theorem acceptsTexts_of_sqlite (driver : db.driver = .sqlite) (texts : List Bytes) :
    db.acceptsTexts texts = true := by
  simp [Db.acceptsTexts, driver, Driver.acceptsText]

theorem appendAuditTx_runs (s : Store σ) (call : Call) (draft : AuditDraft)
    (driver : db.driver = .sqlite) :
    Runs (appendAuditTx sha256 s call draft) db fun _ after => after.driver = .sqlite := by
  unfold appendAuditTx
  refine runs_bind (runs_exec rfl) ?_
  rintro prev after ⟨-, rfl⟩
  refine runs_bind (runs_exec (acceptsTexts_of_sqlite driver _)) ?_
  rintro seq after ⟨-, rfl⟩
  refine runs_bind (runs_exec (acceptsTexts_of_sqlite driver _)) ?_
  rintro _ after ⟨-, rfl⟩
  split
  · refine runs_bind (runs_exec rfl) ?_
    rintro _ after ⟨-, rfl⟩
    exact runs_pure driver
  · exact runs_pure driver

end OmegaPlane.Storage
