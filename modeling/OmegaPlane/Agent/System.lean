import OmegaPlane.Agent.ControlPlane

/-!
# An agent and its control plane

The system takes one critical section of one call at a time: evaluations, the
sync and the flush of the agent, and the handlers of its reports, any of which
may run more than once, late or not at all.  What is kept of the past (the
decisions made and answered, the reports sent, the answers given) is history.
-/

namespace OmegaPlane.Agent

open Audit Storage Decision

variable {σ : Type}

/-- What does not change while an agent runs. -/
structure Setup where
  sha256 : Bytes → Bytes
  codec : Codec
  policy : Policy
  config : Config
  agent : Bytes

/-- Where the one flush of an agent stands. -/
inductive Flusher where
  | idle
  | looping
  | waiting (report : Report)
  | returned

structure World (σ : Type) where
  pdp : PDP
  /-- The bundle a sync has put into the engine and not stamped yet. -/
  syncing : Option Bundle
  /-- The evaluations that hold a slot. -/
  deciding : List EvalCall
  /-- The decisions that are made and not queued yet. -/
  decided : List Queued
  flusher : Flusher
  store : Store σ
  handlers : List Handler
  /-- The clock of the control plane. -/
  clock : Int
  made : List Queued
  answered : List Queued
  sent : List Report
  answers : List (Report × Response)
  /-- Each loss id with the decision it was drawn for. -/
  losses : List (Bytes × Bytes)
  /-- Each key with the time it was recorded. -/
  noted : List (Bytes × Int)

/-- The rows of the chain. -/
def World.rows (w : World σ) : List AuditEvent :=
  w.store.db.auditLog.rows

variable (setup : Setup)

/-! ## Steps -/

/-- The id was never used: for no decision made, no key and no row. -/
def World.Fresh (w : World σ) (id : Bytes) : Prop :=
  (∀ queued ∈ w.made, queued.id ≠ id) ∧
    w.store.db.auditOnce.lookup (decisionKey setup.agent id) = none ∧
    ∀ ev ∈ w.rows, ∀ fields : DecisionFields, fields.decisionID = id →
      ev.payload ≠ setup.codec.encode fields

/-- The loss id was never used. -/
def World.FreshLoss (w : World σ) (lossID : Bytes) : Prop :=
  (∀ loss ∈ w.losses, loss.1 ≠ lossID) ∧
    w.store.db.auditOnce.lookup (lossKey setup.agent lossID) = none

/-- What other requests do to the store of the control plane.  They write no
decisions of this agent, and of the keys of its reports they prune old ones. -/
structure Others (agent : Bytes) (now : Int) (s s' : Store σ) : Prop where
  rows : ∃ new, s'.db.auditLog.rows = s.db.auditLog.rows ++ new ∧
    ∀ ev ∈ new, ev.actor ≠ agent ∨ ev.kind ≠ localDecisionKind
  found : ∀ name row, agent ++ [0] <+: name → s'.db.auditOnce.lookup name = some row →
    s.db.auditOnce.lookup name = some row
  kept : ∀ name row, agent ++ [0] <+: name → s.db.auditOnce.lookup name = some row →
    now - auditOnceRetention ≤ row.createdAt → s'.db.auditOnce.lookup name = some row

/-- The clock goes on, and a key is used again only while it is remembered. -/
def World.Timely (w : World σ) (key : Bytes) (now : Int) : Prop :=
  w.clock ≤ now ∧ ∀ time, (key, time) ∈ w.noted → now ≤ time + auditOnceRetention

/-- The row written for a caller that may not record decisions. -/
def denyDraft (agent : Bytes) : AuditDraft where
  kind := localDecisionKind
  actor := agent
  decision := ascii "deny"

/-- A handler's append, and its answer when the append failed. -/
def World.append (w : World σ) (before : List Handler) (handler : Handler) (after : List Handler)
    (key : Bytes) (draft : AuditDraft) (call : Call) : World σ :=
  let outcome := appendAuditOnce setup.sha256 w.store call key draft
  { w with
    store := outcome.1
    handlers := before ++ (if outcome.2.isOk then [handler.advance] else []) ++ after
    answers :=
      if outcome.2.isOk then w.answers
      else (handler.report, ⟨500, handler.recorded⟩) :: w.answers
    clock := call.now
    noted :=
      if w.store.db.auditOnce.lookup key = none ∧
          outcome.1.db.auditLog.rows.length ≠ w.rows.length then (key, call.now) :: w.noted
      else w.noted }

/-- The answer is one the control plane gave, read whole or without its count. -/
def World.Received (w : World σ) (report : Report) (response : Response) : Prop :=
  (report, response) ∈ w.answers ∨
    ∃ recorded, (report, ⟨response.status, recorded⟩) ∈ w.answers ∧ response.recorded = 0

/-- One step of the agent or the control plane; `timed` asks the control plane's
clock to go on and keys to be used again only while they are remembered. -/
inductive Step (timed : Bool) : World σ → World σ → Prop where
  /-- `Sync` puts a bundle into the engine. -/
  | load {w : World σ} (bundle : Bundle) (clock : SyncReadings) (idle : w.syncing = none)
      (checked : w.pdp.checkBundle setup.sha256 setup.policy setup.config bundle clock = .ok ())
      (revision : bundle.revision = bundleRevision setup.sha256 bundle)
      (loads : setup.policy.loads bundle = true) :
      Step timed w { w with pdp := w.pdp.loadBundle bundle, syncing := some bundle }
  | stamp {w : World σ} (bundle : Bundle) (mark synced : Int)
      (loaded : w.syncing = some bundle) :
      Step timed w { w with pdp := w.pdp.stamp bundle mark synced, syncing := none }
  | notModified {w : World σ} (synced : Int) (unkeyed : setup.config.bundleKey = false) :
      Step timed w { w with pdp := { w.pdp with synced := synced } }
  /-- `evaluate` takes a slot. -/
  | reserve {w : World σ} (call : EvalCall) (pdp : PDP)
      (held : w.pdp.reserve setup.config call.now = .ok pdp) :
      Step timed w { w with pdp := pdp, deciding := call :: w.deciding }
  /-- The engine decides. -/
  | decide {w : World σ} (before : List EvalCall) (call : EvalCall) (after : List EvalCall)
      (response : EvalResponse) (queued : Queued) (waiting : w.deciding = before ++ call :: after)
      (decided : call.decide setup.policy setup.codec.marshal w.pdp.bundle = .ok (response, queued))
      (fresh : w.Fresh setup queued.id) :
      Step timed w
        { w with
          deciding := before ++ after
          decided := queued :: w.decided
          made := queued :: w.made }
  | undecided {w : World σ} (before : List EvalCall) (call : EvalCall) (after : List EvalCall)
      (err : EvalError) (waiting : w.deciding = before ++ call :: after)
      (failed : call.decide setup.policy setup.codec.marshal w.pdp.bundle = .error err) :
      Step timed w { w with pdp := w.pdp.release, deciding := before ++ after }
  | begin {w : World σ} (idle : w.flusher = .idle) :
      Step timed w { w with flusher := .looping }
  | send {w : World σ} (report : Report) (looping : w.flusher = .looping)
      (reported : w.pdp.report = some report) :
      Step timed w { w with flusher := .waiting report, sent := report :: w.sent }
  | drained {w : World σ} (looping : w.flusher = .looping) (nothing : w.pdp.report = none) :
      Step timed w { w with flusher := .returned }
  /-- The request or its answer is lost. -/
  | lose {w : World σ} (report : Report) (waiting : w.flusher = .waiting report) :
      Step timed w { w with flusher := .returned }
  | receive {w : World σ} (report : Report) (response : Response) (handling : Handling)
      (waiting : w.flusher = .waiting report) (received : w.Received report response)
      (fresh : w.pdp.droppedIDs.length <
          (w.pdp.respond setup.sha256 report response handling).1.droppedIDs.length →
        w.FreshLoss setup (newID handling.random)) :
      Step timed w
        { w with
          pdp := (w.pdp.respond setup.sha256 report response handling).1
          flusher :=
            if (w.pdp.respond setup.sha256 report response handling).2 then .looping
            else .returned
          losses :=
            (((w.pdp.respond setup.sha256 report response handling).1.droppedIDs.drop
              w.pdp.droppedIDs.length).map fun id =>
                ((w.pdp.respond setup.sha256 report response handling).1.lossID, id)) ++
              w.losses }
  | finish {w : World σ} (returned : w.flusher = .returned) :
      Step timed w { w with flusher := .idle }
  /-- The control plane gets a report that was sent. -/
  | forbid {w : World σ} (report : Report) (call : Call) (recorders : Recorders)
      (member : report ∈ w.sent) (refused : recorders.mayRecordDecisions setup.agent = false)
      (timely : timed = true → w.clock ≤ call.now) :
      Step timed w
        { w with
          store := (appendAudit setup.sha256 w.store call (denyDraft setup.agent)).1
          answers := (report, ⟨403, 0⟩) :: w.answers
          clock := call.now }
  | reject {w : World σ} (report : Report) (response : Response) (recorders : Recorders)
      (member : report ∈ w.sent) (authorized : recorders.mayRecordDecisions setup.agent = true)
      (refused : report.accept setup.codec = .error response) :
      Step timed w { w with answers := (report, response) :: w.answers }
  | accept {w : World σ} (report : Report) (batch : DecisionBatch) (recorders : Recorders)
      (member : report ∈ w.sent) (authorized : recorders.mayRecordDecisions setup.agent = true)
      (admitted : report.accept setup.codec = .ok batch) :
      Step timed w { w with handlers := Handler.start report batch :: w.handlers }
  | append {w : World σ} (before : List Handler) (handler : Handler) (after : List Handler)
      (key : Bytes) (draft : AuditDraft) (call : Call)
      (running : w.handlers = before ++ handler :: after)
      (next : handler.next setup.codec setup.agent = .inr (key, draft))
      (timely : timed = true → w.Timely key call.now) :
      Step timed w (w.append setup before handler after key draft call)
  | complete {w : World σ} (before : List Handler) (handler : Handler) (after : List Handler)
      (response : Response) (running : w.handlers = before ++ handler :: after)
      (next : handler.next setup.codec setup.agent = .inl response) :
      Step timed w
        { w with
          handlers := before ++ after
          answers := (handler.report, response) :: w.answers }
  | others {w : World σ} (store : Store σ) (now : Int)
      (others : Others setup.agent now w.store store) (timely : timed = true → w.clock ≤ now) :
      Step timed w { w with store := store, clock := now }

/-- The end of an evaluation. -/
inductive Ending : World σ → World σ → Prop where
  | answer {w : World σ} (before : List Queued) (queued : Queued) (after : List Queued)
      (waiting : w.decided = before ++ queued :: after) :
      Ending w
        { w with
          pdp := w.pdp.enqueue queued
          decided := before ++ after
          answered := queued :: w.answered }
  /-- The decision could not be written to the spool. -/
  | unspooled {w : World σ} (before : List Queued) (queued : Queued) (after : List Queued)
      (waiting : w.decided = before ++ queued :: after)
      (spooling : setup.config.spooling = true) :
      Ending w { w with pdp := w.pdp.release, decided := before ++ after }

/-- An agent that has just started, at a control plane in any state. -/
@[simp]
def World.start (store : Store σ) (clock : Int) : World σ where
  pdp := .new
  syncing := none
  deciding := []
  decided := []
  flusher := .idle
  store := store
  handlers := []
  clock := clock
  made := []
  answered := []
  sent := []
  answers := []
  losses := []
  noted := []

end OmegaPlane.Agent
