import OmegaPlane.Crypto.Sha256
import OmegaPlane.Decision.Batch
import OmegaPlane.Storage.Once

/-!
# Recording local decisions

The handler of `POST /v1/audit/decisions` appends each decision, or the report
of a loss, once per agent and id.  The key joins agent and id with NUL bytes,
which SQLite takes and Postgres does not, so on Postgres no batch is ever
recorded.
-/

namespace OmegaPlane.Decision

open Audit Storage Text

/-- Who may record decisions. -/
structure Recorders where
  requireAuth : Bool
  decisionRecorders : List Bytes

/-- An entry is an id, or a prefix ending in a slash. -/
def Recorders.mayRecordDecisions (recorders : Recorders) (caller : Bytes) : Bool :=
  if !recorders.requireAuth ∨ caller = [] then false
  else
    recorders.decisionRecorders.any fun r =>
      caller = r ∨ (hasSuffix r (ascii "/") ∧ hasPrefix caller r)

def localDecisionKind : Bytes := ascii "access.evaluate.local"

/-- The map a decision is recorded as; empty request ids are left out. -/
structure DecisionFields where
  request : EvalRequest
  response : EvalResponse
  source : Bytes
  decisionID : Bytes
  decidedAt : Int
  bundleRevision : Bytes
  requestID : Option Bytes
  requestIDSHA256 : Option Bytes

def decisionFields (bundleRevision : Bytes) (d : LocalDecision) : DecisionFields where
  request := d.request
  response := d.response
  source := ascii "local"
  decisionID := d.id
  decidedAt := d.decidedAt
  bundleRevision := bundleRevision
  requestID := if d.requestID = [] then none else some d.requestID
  requestIDSHA256 := if d.requestIDSHA256 = [] then none else some d.requestIDSHA256

/-- The key a decision is recorded under. -/
def decisionKey (agent id : Bytes) : Bytes :=
  agent ++ 0 :: ascii "decision" ++ 0 :: id

/-- The key a loss is recorded under. -/
def lossKey (agent lossID : Bytes) : Bytes :=
  agent ++ 0 :: ascii "loss" ++ 0 :: lossID

def decisionDraft (agent : Bytes) (d : LocalDecision) (payload : Bytes) : AuditDraft where
  kind := localDecisionKind
  actor := agent
  subject := d.request.subject.id
  decision := if d.response.decision then ascii "allow" else ascii "deny"
  payload := some payload

def lossDraft (agent : Bytes) (batch : DecisionBatch) : AuditDraft where
  kind := localDecisionKind ++ ascii ".dropped"
  actor := agent
  decision := ascii "error"
  payload := some (Json.encode (.obj
    [(ascii "bundle_revision", .str batch.bundleRevision), (ascii "dropped", .int batch.dropped),
      (ascii "dropped_digests", .arr (batch.droppedDigests.map .str)),
      (ascii "dropped_ids", .arr (batch.droppedIDs.map .str)),
      (ascii "loss_id", .str batch.lossID)]))

/-- The answers of the handler. -/
inductive Answer where
  | forbidden
  | badRequest (err : BatchError)
  | marshalFailed
  | appendFailed (err : StoreError) (recorded : Nat)
  | ok (recorded : Nat)
  deriving DecidableEq

def Answer.status : Answer → Nat
  | .forbidden => 403
  | .badRequest _ => 400
  | .marshalFailed => 500
  | .appendFailed _ _ => 500
  | .ok _ => 200

/-- The first instants of the years 0 and 10000. -/
def yearZero : Int := -62167219200 * 1000000000

def yearTenThousand : Int := 253402300800 * 1000000000

/-- A time has a JSON form when its year has at most four digits. -/
def timeMarshals (t : Int) : Bool :=
  yearZero ≤ t ∧ t < yearTenThousand

/-- The payload of a decision, whose text is `encode`'s; the time is the one
field that can keep it from being encoded. -/
def marshal (encode : DecisionFields → Bytes) (fields : DecisionFields) : Option Bytes :=
  if timeMarshals fields.decidedAt then some (encode fields) else none

variable {d : LocalDecision}

theorem marshal_eq_none {encode : DecisionFields → Bytes} {bundleRevision : Bytes} :
    marshal encode (decisionFields bundleRevision d) = none ↔ timeMarshals d.decidedAt = false := by
  change (if timeMarshals d.decidedAt then some (encode (decisionFields bundleRevision d))
    else none) = none ↔ _
  simp

variable {σ : Type} (sha256 : Bytes → Bytes) (encode : DecisionFields → Bytes)
  (calls : Nat → Call) (agent bundleRevision : Bytes)

/-- Append the decisions one by one, `i` of which are recorded. -/
def recordFrom (s : Store σ) (i : Nat) : List LocalDecision → Store σ × Answer
  | [] => (s, .ok i)
  | d :: rest =>
    match marshal encode (decisionFields bundleRevision d) with
    | none => (s, .marshalFailed)
    | some payload =>
      match appendAuditOnce sha256 s (calls i) (decisionKey agent d.id)
          (decisionDraft agent d payload) with
      | (s', .error err) => (s', .appendFailed err i)
      | (s', .ok _) => recordFrom s' (i + 1) rest

/-- The handler, for a decoded body. -/
def recordDecisions (recorders : Recorders) (s : Store σ) (batch : DecisionBatch) :
    Store σ × Answer :=
  if !recorders.mayRecordDecisions agent then
    ((appendAudit sha256 s (calls 0)
      { kind := localDecisionKind, actor := agent, decision := ascii "deny" }).1, .forbidden)
  else
    match checkBatch batch with
    | .error err => (s, .badRequest err)
    | .ok () =>
      if 0 < batch.dropped then
        match appendAuditOnce sha256 s (calls 0) (lossKey agent batch.lossID)
            (lossDraft agent batch) with
        | (s', .error err) => (s', .appendFailed err 0)
        | (s', .ok _) =>
          recordFrom sha256 encode calls agent batch.bundleRevision s' 0 batch.decisions
      else
        recordFrom sha256 encode calls agent batch.bundleRevision s 0 batch.decisions

variable {sha256 encode calls agent bundleRevision}

/-! ## On SQLite -/

variable {s s' : Store σ} {i n : Nat} {decisions : List LocalDecision} {batch : DecisionBatch}

/-- On SQLite decisions that can be encoded are all recorded. -/
theorem recordFrom_sqlite (driver : s.db.driver = .sqlite) (leads : s.isLeader = true)
    (clean : ∀ i, (calls i).faults = .none)
    (encodable : ∀ d ∈ decisions, timeMarshals d.decidedAt = true) :
    ∃ s', recordFrom sha256 encode calls agent bundleRevision s i decisions =
      (s', .ok (i + decisions.length)) := by
  induction decisions generalizing s i with
  | nil => exact ⟨s, rfl⟩
  | cons d rest ih =>
  have encoded : marshal encode (decisionFields bundleRevision d) =
      some (encode (decisionFields bundleRevision d)) := if_pos (encodable d (by simp))
  have kind : ∀ payload, (decisionDraft agent d payload).kind ≠ [] := by
    intro payload
    change localDecisionKind ≠ []
    decide
  have named : decisionKey agent d.id ≠ [] := by simp [decisionKey]
  obtain ⟨appended, result, driver', leads'⟩ :=
    @appendAuditOnce_sqlite _ sha256 s (calls i) _ _ driver leads (clean i) (kind _) named
  obtain ⟨s', recorded⟩ := @ih _ (i + 1) driver' leads' fun other member =>
    encodable other (by simp [member])
  refine ⟨s', ?_⟩
  rw [recordFrom, encoded]
  simp only
  rw [← Prod.eta (appendAuditOnce _ _ _ _ _), result]
  simp only
  rw [recorded, List.length_cons]
  congr 2
  omega

/-- A decision that cannot be encoded keeps the answer from being 200. -/
theorem recordFrom_unencodable (member : d ∈ decisions)
    (unencodable : timeMarshals d.decidedAt = false) :
    recordFrom sha256 encode calls agent bundleRevision s i decisions ≠ (s', .ok n) := by
  induction decisions generalizing s i with
  | nil => simp at member
  | cons first rest ih =>
  rw [recordFrom]
  rcases List.mem_cons.mp member with rfl | later
  · simp [marshal_eq_none.mpr unencodable]
  split
  · simp
  · split
    · simp
    · exact ih later

/-! ## On Postgres -/

theorem nul_mem_decisionKey (agent id : Bytes) : 0 ∈ decisionKey agent id := by
  simp [decisionKey]

theorem nul_mem_lossKey (agent lossID : Bytes) : 0 ∈ lossKey agent lossID := by
  simp [lossKey]

/-- On Postgres no decision is recorded. -/
theorem recordFrom_postgres (driver : s.db.driver = .postgres) (nonempty : decisions ≠ []) :
    ∃ answer, recordFrom sha256 encode calls agent bundleRevision s i decisions = (s, answer) ∧
      answer.status = 500 := by
  cases decisions with
  | nil => exact absurd rfl nonempty
  | cons d rest =>
  rw [recordFrom]
  split
  · exact ⟨_, rfl, rfl⟩
  rename_i payload _
  obtain ⟨err, failed⟩ := @appendAuditOnce_postgres_nul _ sha256 s (calls i) _
    (decisionDraft agent d payload) driver (nul_mem_decisionKey agent d.id)
  rw [failed]
  exact ⟨_, rfl, rfl⟩

/-- A valid batch has decisions or reports a loss. -/
theorem checkBatch_nonempty (valid : checkBatch batch = .ok ()) (noLoss : ¬0 < batch.dropped) :
    batch.decisions ≠ [] := by
  unfold checkBatch at valid
  split at valid
  · contradiction
  rename_i lossReport
  split at valid
  · contradiction
  split at valid
  · contradiction
  rename_i notEmpty
  intro empty
  rw [not_or] at lossReport
  exact notEmpty ⟨by omega, empty⟩

/-- A loss report travels without decisions. -/
theorem checkBatch_loss (valid : checkBatch batch = .ok ()) (loss : 0 < batch.dropped) :
    batch.decisions = [] := by
  unfold checkBatch at valid
  split at valid
  · contradiction
  split at valid
  · contradiction
  · rename_i together
    by_contra some
    exact together ⟨loss, some⟩

/-- On Postgres every valid batch is answered with 500 and leaves nothing. -/
theorem recordDecisions_postgres {recorders : Recorders} {s : Store σ} {batch : DecisionBatch}
    (authorized : recorders.mayRecordDecisions agent = true) (valid : checkBatch batch = .ok ())
    (driver : s.db.driver = .postgres) :
    ∃ answer, recordDecisions sha256 encode calls agent recorders s batch = (s, answer) ∧
      answer.status = 500 := by
  rw [recordDecisions, authorized, if_neg (by simp), valid]
  by_cases loss : 0 < batch.dropped
  · obtain ⟨err, failed⟩ := @appendAuditOnce_postgres_nul _ sha256 s (calls 0) _
      (lossDraft agent batch) driver (nul_mem_lossKey agent batch.lossID)
    simp only [loss, if_true, failed]
    exact ⟨_, rfl, rfl⟩
  · simp only [loss, if_false]
    exact recordFrom_postgres driver (checkBatch_nonempty valid loss)

/-! ## The two stores compared -/

/-- What the two stores owe each other: a batch that is recorded on a fresh
SQLite store is recorded on a fresh Postgres store, with the same rows. -/
def SameOnBoth (sha256 : Bytes → Bytes) (encode : DecisionFields → Bytes) (calls : Nat → Call)
    (agent : Bytes) (recorders : Recorders) (provisioned : σ) (leader : Leadership)
    (keyring : Option AuditKeyring) (batch : DecisionBatch) : Prop :=
  ∀ (s : Store σ) (n : Nat),
    recordDecisions sha256 encode calls agent recorders
        (.opened .sqlite provisioned ⟨false, false⟩ keyring) batch = (s, .ok n) →
      ∃ s' : Store σ,
        recordDecisions sha256 encode calls agent recorders
            (.opened .postgres provisioned leader keyring) batch = (s', .ok n) ∧
          s'.db.auditLog.rows = s.db.auditLog.rows

/-- On SQLite a valid batch whose times can be encoded is recorded. -/
theorem recordDecisions_sqlite {recorders : Recorders} {s : Store σ} {batch : DecisionBatch}
    (authorized : recorders.mayRecordDecisions agent = true) (valid : checkBatch batch = .ok ())
    (driver : s.db.driver = .sqlite) (leads : s.isLeader = true)
    (clean : ∀ i, (calls i).faults = .none)
    (encodable : ∀ d ∈ batch.decisions, timeMarshals d.decidedAt = true) :
    ∃ s' n, recordDecisions sha256 encode calls agent recorders s batch = (s', .ok n) := by
  rw [recordDecisions, authorized, if_neg (by simp), valid]
  by_cases loss : 0 < batch.dropped
  · have kind : (lossDraft agent batch).kind ≠ [] := by
      change localDecisionKind ++ ascii ".dropped" ≠ []
      decide
    have named : lossKey agent batch.lossID ≠ [] := by simp [lossKey]
    obtain ⟨appended, result, -, -⟩ :=
      @appendAuditOnce_sqlite _ sha256 s (calls 0) _ _ driver leads (clean 0) kind named
    simp only [loss, if_true]
    rw [← Prod.eta (appendAuditOnce _ _ _ _ _), result, checkBatch_loss valid loss]
    exact ⟨_, 0, rfl⟩
  · simp only [loss, if_false]
    obtain ⟨s', recorded⟩ := recordFrom_sqlite driver leads clean encodable
    exact ⟨s', _, recorded⟩

/-- A batch with a time that cannot be encoded is not answered with 200. -/
theorem recordDecisions_unencodable {recorders : Recorders} (member : d ∈ batch.decisions)
    (unencodable : timeMarshals d.decidedAt = false) :
    recordDecisions sha256 encode calls agent recorders s batch ≠ (s', .ok n) := by
  unfold recordDecisions
  split
  · simp
  split
  · simp
  split
  · split
    · simp
    · exact recordFrom_unencodable member unencodable
  · exact recordFrom_unencodable member unencodable

/-- The two stores treat a valid batch alike only when neither records it,
because a decision was made at a time that cannot be encoded. -/
theorem recordDecisions_same_iff {recorders : Recorders} {provisioned : σ} {leader : Leadership}
    {keyring : Option AuditKeyring} {batch : DecisionBatch}
    (authorized : recorders.mayRecordDecisions agent = true) (valid : checkBatch batch = .ok ())
    (clean : ∀ i, (calls i).faults = .none) :
    SameOnBoth sha256 encode calls agent recorders provisioned leader keyring batch ↔
      ∃ d ∈ batch.decisions, timeMarshals d.decidedAt = false := by
  constructor
  · intro same
    by_contra encodable
    simp only [not_exists, not_and, Bool.not_eq_false] at encodable
    obtain ⟨s, n, recorded⟩ := @recordDecisions_sqlite σ sha256 encode calls agent recorders
      (.opened .sqlite provisioned ⟨false, false⟩ keyring) batch authorized valid rfl rfl clean
      encodable
    obtain ⟨s', ok, -⟩ := same s n recorded
    obtain ⟨answer, failed, status⟩ := @recordDecisions_postgres σ sha256 encode calls agent
      recorders (.opened .postgres provisioned leader keyring) batch authorized valid rfl
    rw [failed, Prod.mk.injEq] at ok
    simp [ok.2, Answer.status] at status
  · rintro ⟨d, member, unencodable⟩ s n recorded
    exact absurd recorded (recordDecisions_unencodable member unencodable)

/-! A node agent of the default trust domain reports one lost decision. -/

def nodeAgent : Bytes := ascii "spiffe://omega.local/agent/node1"

def agentRecorders : Recorders := ⟨true, [ascii "spiffe://omega.local/agent/"]⟩

def lossReport : DecisionBatch where
  dropped := 1
  droppedIDs := [ascii "d1"]
  droppedDigests := [ascii "e3b0c44298fc1c149afbf4c8996fb92427ae41e4649b934ca495991b7852b855"]
  lossID := ascii "l1"

theorem recordDecisions_same_iff_lossReport :
    agentRecorders.mayRecordDecisions nodeAgent = true ∧ checkBatch lossReport = .ok () ∧
      (SameOnBoth Crypto.Sha256.sum (fun _ => []) (fun _ => .clean 1) nodeAgent
          agentRecorders () ⟨false, false⟩ none lossReport ↔
        ∃ d ∈ lossReport.decisions, timeMarshals d.decidedAt = false) :=
  ⟨by decide, by decide, recordDecisions_same_iff (by decide) (by decide) fun _ => rfl⟩

/-- The report sent to a fresh store; no decision is encoded for it. -/
def lossReported (driver : Driver) : Store Unit × Answer :=
  recordDecisions Crypto.Sha256.sum (fun _ => []) (fun _ => .clean 1) nodeAgent agentRecorders
    (.opened driver () ⟨false, false⟩ none) lossReport

/-- SQLite records the loss report, Postgres answers it with 500. -/
theorem loss_report_refused_by_postgres :
    (lossReported .sqlite).2.status = 200 ∧
      (lossReported .sqlite).1.db.auditLog.rows.map AuditEvent.kind =
        [ascii "access.evaluate.local.dropped"] ∧
      (lossReported .postgres).2.status = 500 ∧
      (lossReported .postgres).1.db.auditLog.rows = [] := by
  decide +kernel

end OmegaPlane.Decision
