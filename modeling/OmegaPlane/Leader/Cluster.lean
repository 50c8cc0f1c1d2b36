import Mathlib.Logic.Function.Basic
import OmegaPlane.Storage.Append

/-!
# Replicas on one Postgres database

Several replicas compete for an advisory lock and append to one audit chain.
The model is at statement granularity: the election goroutine of each replica,
its appends and the server take turns in any order.  Every statement of a
transaction reads the committed rows (READ COMMITTED) and its own; the lock
belongs to a session and is freed by the server when that session dies, which
the replica learns at its next ping only.
-/

namespace OmegaPlane.Leader

open Audit Storage

/-! ## Drawing numbers and committing rows -/

/-- Insert a row where its number belongs; a number that is taken stays. -/
def putRow (row : AuditEvent) : List AuditEvent → List AuditEvent
  | [] => [row]
  | head :: rest =>
    if row.seq < head.seq then row :: head :: rest
    else if row.seq = head.seq then head :: rest
    else head :: putRow row rest

variable {row : AuditEvent} {rows : List AuditEvent}

theorem mem_putRow {other : AuditEvent} (member : other ∈ putRow row rows) :
    other = row ∨ other ∈ rows := by
  induction rows with
  | nil => exact .inl (List.mem_singleton.mp member)
  | cons head rest ih =>
  unfold putRow at member
  split at member
  · simpa using member
  split at member
  · exact .inr member
  · rcases List.mem_cons.mp member with rfl | later
    · exact .inr (by simp)
    · exact (ih later).imp id fun old => by simp [old]

theorem ordered_putRow (ordered : rows.Pairwise fun earlier later => earlier.seq < later.seq) :
    (putRow row rows).Pairwise fun earlier later => earlier.seq < later.seq := by
  induction rows with
  | nil => exact List.pairwise_singleton _ _
  | cons head rest ih =>
  obtain ⟨below, restOrdered⟩ := List.pairwise_cons.mp ordered
  unfold putRow
  split
  · rename_i first
    refine List.pairwise_cons.mpr ⟨?_, ordered⟩
    intro later member
    rcases List.mem_cons.mp member with rfl | inRest
    · exact first
    · exact first.trans (below later inRest)
  · split
    · exact ordered
    · refine List.pairwise_cons.mpr ⟨?_, ih restOrdered⟩
      intro later member
      rcases mem_putRow member with rfl | inRest
      · omega
      · exact below later inRest

/-- A row numbered past all others goes to the end. -/
theorem putRow_of_lt (past : ∀ ev ∈ rows, ev.seq < row.seq) : putRow row rows = rows ++ [row] := by
  induction rows with
  | nil => rfl
  | cons head rest ih =>
    have headPast := past head (by simp)
    rw [putRow, if_neg (by omega), if_neg (by omega), ih fun ev member => past ev (by simp [member])]
    rfl

/-- Draw the next number; it is not given out again, whatever becomes of the
transaction. -/
def AuditTable.draw (table : AuditTable) : Int × AuditTable :=
  (table.nextSeq,
    { table with
      nextSeq := table.nextSeq + 1
      started := by
        have positive := table.started
        omega
      assigned := by
        intro row member
        have bounds := table.assigned row member
        omega })

/-- Make a row under a drawn number visible. -/
def AuditTable.put (table : AuditTable) (row : AuditEvent) : AuditTable :=
  if drawn : 0 < row.seq ∧ row.seq < table.nextSeq then
    { table with
      rows := putRow row table.rows
      ordered := ordered_putRow table.ordered
      assigned := by
        intro other member
        rcases mem_putRow member with rfl | old
        · exact drawn
        · exact table.assigned other old }
  else
    table

theorem AuditTable.rows_put {table : AuditTable} (drawn : 0 < row.seq ∧ row.seq < table.nextSeq)
    (past : ∀ ev ∈ table.rows, ev.seq < row.seq) :
    (AuditTable.put table row).rows = table.rows ++ [row] := by
  rw [AuditTable.put, dif_pos drawn]
  exact putRow_of_lt past

/-! ## Replicas -/

/-- Where the election goroutine of a replica stands: without a dedicated
connection; with the lock but the leader flag not yet set; leading; about to
unlock; about to close the connection and clear the flag. -/
inductive Phase where
  | polling
  | locked
  | leading
  | releasing
  | released
  deriving DecidableEq

/-- How far the transaction of an append has come. -/
inductive Progress where
  | begun
  | read (stamp : Int) (prev : Bytes)
  | inserted (row : AuditEvent)
  | hashed (row : AuditEvent)
  | recorded (row : AuditEvent) (epoch : Option Int)
  deriving DecidableEq

/-- An append that holds `auditMu`, with its transaction. -/
structure Append where
  draft : AuditDraft
  progress : Progress
  deriving DecidableEq

/-- A replica: its election goroutine, what it keeps in memory, the appends
that have passed the leader check and wait for `auditMu`, and the one that
holds it. -/
structure Replica where
  phase : Phase := .polling
  isLeader : Bool := false
  keyedEpochRecorded : Bool := false
  waiting : List AuditDraft := []
  tx : Option Append := none

/-- No append has passed the leader check and is still under way. -/
def Replica.Idle (r : Replica) : Prop :=
  r.waiting = [] ∧ r.tx = none

instance (r : Replica) : Decidable r.Idle :=
  inferInstanceAs (Decidable (_ ∧ _))

variable {ι : Type} [DecidableEq ι]

/-- The committed state of the database, the transaction that has inserted an
uncommitted keying epoch, the replica one of whose sessions owns the advisory
lock, and the replicas, which run with one keyring. -/
structure Cluster (ι : Type) where
  auditLog : AuditTable
  keyedFromSeq : Option Int
  epochWriter : Option ι
  lock : Option ι
  auditKeyring : Option AuditKeyring
  replica : ι → Replica

namespace Cluster

/-- Replicas that have just started election on a database. -/
def started (auditLog : AuditTable) (keyedFromSeq : Option Int)
    (auditKeyring : Option AuditKeyring) : Cluster ι :=
  ⟨auditLog, keyedFromSeq, none, none, auditKeyring, fun _ => {}⟩

/-- The store of a replica, on the committed state. -/
def store (c : Cluster ι) (i : ι) : Store Unit where
  db := { Db.empty .postgres () with auditLog := c.auditLog, keyedFromSeq := c.keyedFromSeq }
  leader := ⟨true, (c.replica i).isLeader⟩
  auditKeyring := c.auditKeyring
  keyedEpochRecorded := (c.replica i).keyedEpochRecorded
  oncePrunedAt := none

@[simp]
def set (c : Cluster ι) (i : ι) (r : Replica) : Cluster ι :=
  { c with replica := Function.update c.replica i r }

/-- Move the transaction of a replica on. -/
def progress (c : Cluster ι) (i : ι) (tx : Append) (progress : Progress) : Cluster ι :=
  c.set i { c.replica i with tx := some { tx with progress } }

/-- End the transaction of a replica. -/
def finish (c : Cluster ι) (i : ι) : Cluster ι :=
  { c.set i { c.replica i with tx := none } with
    epochWriter := if c.epochWriter = some i then none else c.epochWriter }

end Cluster

/-! ## Steps -/

/-- What can happen next: a turn of an election goroutine, of the server, or of
an append. -/
inductive Action (ι : Type) where
  /-- `pg_try_advisory_lock` returns true. -/
  | acquire (i : ι)
  /-- The lock is granted but the answer is lost. -/
  | grantLost (i : ι)
  | announce (i : ι)
  /-- A failed ping, or the end of the election context. -/
  | pingFailed (i : ι)
  /-- `pg_advisory_unlock`, which may fail. -/
  | unlock (i : ι) (freed : Bool)
  | stepDown (i : ι)
  /-- The session that owns the lock dies. -/
  | sessionDies (i : ι)
  /-- A caller's append passes the checks before `auditMu`. -/
  | check (i : ι) (draft : AuditDraft)
  /-- One of the waiting appends takes `auditMu` and begins its transaction. -/
  | begin (i : ι) (index : Nat)
  /-- The begin fails, or the caller gives up. -/
  | abandon (i : ι) (index : Nat)
  | lastAuditHash (i : ι) (stamp : Int)
  | insert (i : ι)
  | updateHash (i : ι)
  | recordEpoch (i : ι)
  | commit (i : ι)
  /-- A statement or the commit fails, or the context ends. -/
  | rollback (i : ι)

/-- A turn of the election goroutine of a replica, or of the server. -/
def electionStep (c : Cluster ι) : Action ι → Option (Cluster ι)
  | .acquire i =>
    -- a session of this replica that still owns the lock is granted it again
    if (c.replica i).phase = .polling ∧ (c.lock = none ∨ c.lock = some i) then
      some { c.set i { c.replica i with phase := .locked } with lock := some i }
    else
      none
  | .grantLost i =>
    if (c.replica i).phase = .polling ∧ c.lock = none then some { c with lock := some i }
    else none
  | .announce i =>
    if (c.replica i).phase = .locked then
      some (c.set i { c.replica i with phase := .leading, isLeader := true })
    else
      none
  | .pingFailed i =>
    if (c.replica i).phase = .leading then
      some (c.set i { c.replica i with phase := .releasing })
    else
      none
  | .unlock i freed =>
    if (c.replica i).phase = .releasing then
      some { c.set i { c.replica i with phase := .released } with
        lock := if freed ∧ c.lock = some i then none else c.lock }
    else
      none
  | .stepDown i =>
    if (c.replica i).phase = .released then
      some (c.set i { c.replica i with phase := .polling, isLeader := false })
    else
      none
  | .sessionDies i => if c.lock = some i then some { c with lock := none } else none
  | _ => none

variable (sha256 : Bytes → Bytes)

/-- The columns Postgres takes in an insert. -/
def accepts (row : AuditEvent) : Bool :=
  [row.kind, row.actor, row.subject, row.decision, row.payload, row.prevHash, row.hash,
    row.keyID].all Driver.postgres.acceptsText

/-- Whether the transaction has the keying epoch to record. -/
def Cluster.mustRecord (c : Cluster ι) (i : ι) : Bool :=
  c.auditKeyring.isSome && !(c.replica i).keyedEpochRecorded

/-- The commit of a transaction that wrote `row` and perhaps the epoch. -/
def Cluster.commit (c : Cluster ι) (i : ι) (row : AuditEvent) (epoch : Option Int) : Cluster ι :=
  let done := c.finish i
  { done.set i
      { done.replica i with
        keyedEpochRecorded := (done.replica i).keyedEpochRecorded || c.auditKeyring.isSome } with
    auditLog := AuditTable.put c.auditLog row
    keyedFromSeq := c.keyedFromSeq.or epoch }

/-- A statement of an append that holds `auditMu`. -/
def statement (c : Cluster ι) (i : ι) (tx : Append) : Action ι → Option (Cluster ι)
  | .lastAuditHash _ stamp =>
    if tx.progress = .begun then
      some (c.progress i tx (.read stamp (c.auditLog.lastHash.getD genesisHash)))
    else
      none
  | .insert _ =>
    match tx.progress with
    | .read stamp prev =>
      let (seq, auditLog) := AuditTable.draw c.auditLog
      let row := tx.draft.row stamp (c.store i).signingKey.1 prev seq
      if accepts row then some { c.progress i tx (.inserted row) with auditLog } else none
    | _ => none
  | .updateHash _ =>
    match tx.progress with
    | .inserted row =>
      some (c.progress i tx (.hashed (sealRow sha256 row (c.store i).signingKey.2)))
    | _ => none
  | .recordEpoch _ =>
    match tx.progress with
    | .hashed row =>
      -- an uncommitted epoch of another transaction blocks the insert
      if c.mustRecord i ∧ (c.epochWriter = none ∨ c.epochWriter = some i) then
        if c.keyedFromSeq.isSome then some (c.progress i tx (.recorded row none))
        else some { c.progress i tx (.recorded row (some row.seq)) with epochWriter := some i }
      else
        none
    | _ => none
  | .commit _ =>
    match tx.progress with
    | .hashed row => if c.mustRecord i then none else some (c.commit i row none)
    | .recorded row epoch => some (c.commit i row epoch)
    | _ => none
  | .rollback _ => some (c.finish i)
  | _ => none

/-- A turn of the appends of a replica. -/
def appendStep (c : Cluster ι) (i : ι) (action : Action ι) : Option (Cluster ι) :=
  match action with
  | .check _ draft =>
    if (c.store i).isLeader ∧ draft.kind ≠ [] then
      some (c.set i { c.replica i with waiting := (c.replica i).waiting ++ [draft] })
    else
      none
  | .begin _ index =>
    match (c.replica i).tx, (c.replica i).waiting[index]? with
    | none, some draft =>
      some (c.set i { c.replica i with
        waiting := (c.replica i).waiting.eraseIdx index, tx := some ⟨draft, .begun⟩ })
    | _, _ => none
  | .abandon _ index =>
    some (c.set i { c.replica i with waiting := (c.replica i).waiting.eraseIdx index })
  | action =>
    match (c.replica i).tx with
    | none => none
    | some tx => statement sha256 c i tx action

/-- One step of the cluster; `none` when the action cannot happen now. -/
def step (c : Cluster ι) (action : Action ι) : Option (Cluster ι) :=
  match action with
  | .acquire _ | .grantLost _ | .announce _ | .pingFailed _ | .unlock _ _ | .stepDown _
  | .sessionDies _ => electionStep c action
  | .check i _ | .begin i _ | .abandon i _ | .lastAuditHash i _ | .insert i | .updateHash i
  | .recordEpoch i | .commit i | .rollback i => appendStep sha256 c i action

end OmegaPlane.Leader
