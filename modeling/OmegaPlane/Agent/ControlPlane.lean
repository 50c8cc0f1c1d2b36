import OmegaPlane.Agent.Pdp
import OmegaPlane.Decision.Record
import OmegaPlane.Storage.OnceRuns

/-!
# Reports at the control plane

A report travels as a JSON body.  Its handler refuses the body as a whole or
appends the decisions one by one, and other handlers may run between two of its
appends; a handler that nothing interrupts is `recordDecisions`.
-/

namespace OmegaPlane.Agent

open Audit Storage Decision

variable {σ : Type}

/-! ## Encodings -/

/-- How a decision is written by the agent, read by the control plane and
written to the chain.  Only what the text says about the id is assumed, and that
the agent writes an object on one line. -/
structure Codec where
  marshal : LocalDecision → Option Bytes
  decode : Bytes → Option LocalDecision
  encode : DecisionFields → Bytes
  marshal_object : ∀ {d : LocalDecision} {raw : Bytes}, marshal d = some raw →
    (∃ inside, raw = 123 :: inside) ∧ 10 ∉ raw
  decode_id : ∀ {d d' : LocalDecision} {raw random : Bytes}, d.id = newID random →
    marshal d = some raw → decode raw = some d' → d'.id = d.id
  encode_id : ∀ {fields fields' : DecisionFields}, encode fields = encode fields' →
    Utf8.scrub fields.decisionID = Utf8.scrub fields'.decisionID
  encode_ne : ∀ fields, encode fields ≠ ascii "\x7b\x7d"

/-- The text keeps an id the agent drew. -/
theorem scrub_newID (random : Bytes) : Utf8.scrub (newID random) = newID random :=
  Utf8.scrub_of_valid (Utf8.validFrom_of_ascii fun _ member =>
    Hex.lt_of_mem (Hex.decodeString_encodeToString random) member)

variable {fields : DecisionFields} {agent : Bytes}

theorem Codec.newID_eq_of_encode_eq (codec : Codec) {fields' : DecisionFields}
    {random random' : Bytes} (drawn : fields.decisionID = newID random)
    (drawn' : fields'.decisionID = newID random')
    (same : codec.encode fields = codec.encode fields') :
    fields.decisionID = fields'.decisionID := by
  have kept := codec.encode_id same
  rw [drawn, drawn', scrub_newID, scrub_newID] at kept
  rw [drawn, drawn', kept]

/-- The row a queued decision is to be recorded as. -/
def Queued.draft (codec : Codec) (agent : Bytes) (queued : Queued) : Option AuditDraft :=
  (codec.decode queued.raw).bind fun d =>
    (marshal codec.encode (decisionFields queued.revision d)).map (decisionDraft agent d)

variable {codec : Codec} {queued : Queued}

theorem Queued.draft_eq_some {draft : AuditDraft} :
    queued.draft codec agent = some draft ↔
      ∃ d payload, codec.decode queued.raw = some d ∧
        marshal codec.encode (decisionFields queued.revision d) = some payload ∧
        decisionDraft agent d payload = draft := by
  simp only [Queued.draft, Option.bind_eq_some_iff, Option.map_eq_some_iff]
  constructor
  · rintro ⟨d, decoded, payload, encoded, same⟩
    exact ⟨d, payload, decoded, encoded, same⟩
  · rintro ⟨d, payload, decoded, encoded, same⟩
    exact ⟨d, decoded, payload, encoded, same⟩

theorem marshal_eq_some {encode : DecisionFields → Bytes} {payload : Bytes}
    (encoded : marshal encode fields = some payload) :
    payload = encode fields := by
  unfold marshal at encoded
  split at encoded
  · exact (Option.some.inj encoded).symm
  · contradiction

/-! ## The body -/

def maxJSONBodyBytes : Nat := 2 ^ 20

/-- The items of an array, already encoded. -/
def joinRaw : List Bytes → Bytes
  | [] => []
  | [raw] => raw
  | raw :: next :: rest => raw ++ ascii "," ++ joinRaw (next :: rest)

theorem length_le_joinRaw {raw : Bytes} {raws : List Bytes} (member : raw ∈ raws) :
    raw.length ≤ (joinRaw raws).length := by
  induction raws with
  | nil => simp at member
  | cons first rest ih =>
  cases rest with
  | nil =>
    rw [List.mem_singleton.mp member]
    exact le_rfl
  | cons =>
    simp only [joinRaw, List.length_append]
    rcases List.mem_cons.mp member with rfl | later
    · omega
    · have bound := ih later
      omega

theorem length_joinRaw_le (batch : List Queued) :
    (joinRaw (batch.map (·.raw))).length ≤ batchBytes batch := by
  induction batch with
  | nil => exact Nat.zero_le _
  | cons first rest ih =>
  cases rest with
  | nil => simp [joinRaw, batchBytes]
  | cons =>
    simp only [List.map_cons, joinRaw, List.length_append, batchBytes, List.sum_cons,
      show (ascii ",").length = 1 by decide] at ih ⊢
    omega

/-- What a body says about dropped decisions. -/
def Report.lossFields (report : Report) : Bytes :=
  if report.droppedIDs = [] then []
  else
    ascii "," ++ Json.encodeFields
      [(ascii "dropped", .int report.droppedIDs.length),
        (ascii "dropped_digests", .arr (report.droppedDigests.map .str)),
        (ascii "dropped_ids", .arr (report.droppedIDs.map .str)),
        (ascii "loss_id", .str report.lossID)]

def Report.body (report : Report) : Bytes :=
  ascii "\x7b\"bundle_revision\":" ++ Json.quote report.revision ++ ascii ",\"decisions\":[" ++
    joinRaw (report.batch.map (·.raw)) ++ ascii "]" ++ report.lossFields ++ ascii "\x7d"

/-- The report of one decision. -/
def Queued.alone (queued : Queued) : Report where
  revision := queued.revision
  batch := [queued]
  droppedIDs := []
  droppedDigests := []
  lossID := []

variable {report : Report} {batch : List Queued} {decisions : List LocalDecision}

theorem Report.length_body_alone (member : queued ∈ report.batch)
    (revision : queued.revision = report.revision) :
    queued.alone.body.length ≤ report.body.length := by
  have inside := length_le_joinRaw (List.mem_map_of_mem (f := fun q : Queued => q.raw) member)
  simp only [Report.body, Queued.alone, Report.lossFields, List.length_append, List.map_cons,
    List.map_nil, joinRaw, if_true, List.length_nil, revision]
  omega

/-- The decisions of a body as the control plane reads them. -/
@[simp]
def decodeBatch (codec : Codec) : List Queued → Option (List LocalDecision)
  | [] => some []
  | queued :: rest =>
    match codec.decode queued.raw with
    | none => none
    | some d => (decodeBatch codec rest).map (d :: ·)

/-- The batch a body holds; ids, digests and revisions are hex texts, which JSON
keeps. -/
def Report.decode (codec : Codec) (report : Report) : Option DecisionBatch :=
  (decodeBatch codec report.batch).map fun decisions =>
    if report.droppedIDs = [] then { bundleRevision := report.revision, decisions }
    else
      { bundleRevision := report.revision
        decisions
        dropped := report.droppedIDs.length
        droppedIDs := report.droppedIDs
        droppedDigests := report.droppedDigests
        lossID := report.lossID }

section

variable (decoded : decodeBatch codec batch = some decisions)
include decoded

theorem decodeBatch_get (i : Nat) :
    decisions[i]? = batch[i]?.bind fun queued => codec.decode queued.raw := by
  induction batch generalizing decisions i with
  | nil =>
    cases decoded
    rfl
  | cons queued rest ih =>
    simp only [decodeBatch] at decoded
    split at decoded
    · contradiction
    rename_i d read
    obtain ⟨later, restDecoded, rfl⟩ := Option.map_eq_some_iff.mp decoded
    cases i with
    | zero => simp [read]
    | succ i => simpa using ih restDecoded i

theorem decodeBatch_length : decisions.length = batch.length := by
  induction batch generalizing decisions with
  | nil =>
    cases decoded
    rfl
  | cons queued rest ih =>
    simp only [decodeBatch] at decoded
    split at decoded
    · contradiction
    · obtain ⟨later, restDecoded, rfl⟩ := Option.map_eq_some_iff.mp decoded
      simp [ih restDecoded]

theorem mem_of_decodeBatch {d : LocalDecision}
    (member : d ∈ decisions) : ∃ queued ∈ batch, codec.decode queued.raw = some d := by
  obtain ⟨i, here⟩ := List.getElem?_of_mem member
  rw [decodeBatch_get decoded, Option.bind_eq_some_iff] at here
  obtain ⟨queued, found, read⟩ := here
  exact ⟨queued, List.mem_of_getElem? found, read⟩

end

theorem exists_decodeBatch (readable : ∀ queued ∈ batch, ∃ d, codec.decode queued.raw = some d) :
    ∃ decisions, decodeBatch codec batch = some decisions := by
  induction batch with
  | nil => exact ⟨[], rfl⟩
  | cons queued rest ih =>
  obtain ⟨d, read⟩ := readable queued List.mem_cons_self
  obtain ⟨decisions, later⟩ := ih fun other member =>
    readable other (List.mem_cons_of_mem _ member)
  exact ⟨d :: decisions, by simp [read, later]⟩

theorem Report.decode_eq_some {batch : DecisionBatch} (decoded : report.decode codec = some batch) :
    decodeBatch codec report.batch = some batch.decisions ∧
      batch.bundleRevision = report.revision ∧ batch.droppedIDs = report.droppedIDs ∧
      batch.dropped = report.droppedIDs.length ∧
      (report.droppedIDs ≠ [] → batch.lossID = report.lossID) := by
  obtain ⟨decisions, read, rfl⟩ := Option.map_eq_some_iff.mp decoded
  split
  · rename_i none
    simp [read, none]
  · exact ⟨read, rfl, rfl, rfl, fun _ => rfl⟩

/-! ## The handler -/

/-- The checks on a body before anything is appended. -/
def Report.accept (codec : Codec) (report : Report) : Except Response DecisionBatch :=
  if maxJSONBodyBytes < report.body.length then .error ⟨413, 0⟩
  else
    match report.decode codec with
    | none => .error ⟨400, 0⟩
    | some batch =>
      match checkBatch batch with
      | .error _ => .error ⟨400, 0⟩
      | .ok () => .ok batch

/-- A handler between two appends: whether it still has to append a loss, and
how many decisions it appended. -/
structure Handler where
  report : Report
  batch : DecisionBatch
  loss : Bool
  recorded : Nat

def Handler.start (report : Report) (batch : DecisionBatch) : Handler :=
  ⟨report, batch, 0 < batch.dropped, 0⟩

/-- The answer of a handler, or the key and row of its next append. -/
def Handler.next (codec : Codec) (agent : Bytes) (handler : Handler) :
    Response ⊕ (Bytes × AuditDraft) :=
  if handler.loss then .inr (lossKey agent handler.batch.lossID, lossDraft agent handler.batch)
  else
    match handler.batch.decisions[handler.recorded]? with
    | none => .inl ⟨200, handler.recorded⟩
    | some d =>
      match marshal codec.encode (decisionFields handler.batch.bundleRevision d) with
      | none => .inl ⟨500, 0⟩
      | some payload => .inr (decisionKey agent d.id, decisionDraft agent d payload)

/-- A handler after a successful append. -/
def Handler.advance (handler : Handler) : Handler :=
  if handler.loss then { handler with loss := false }
  else { handler with recorded := handler.recorded + 1 }

/-- A handler that nothing interrupts. -/
def Handler.run (sha256 : Bytes → Bytes) (codec : Codec) (agent : Bytes) (calls : Nat → Call) :
    Nat → Store σ → Handler → Store σ × Response
  | 0, s, handler => (s, ⟨500, handler.recorded⟩)
  | fuel + 1, s, handler =>
    match handler.next codec agent with
    | .inl response => (s, response)
    | .inr (key, draft) =>
      match appendAuditOnce sha256 s (calls handler.recorded) key draft with
      | (s', .error _) => (s', ⟨500, handler.recorded⟩)
      | (s', .ok _) => run sha256 codec agent calls fuel s' handler.advance

/-- The answer of `recordDecisions` as the agent reads it. -/
def response : Answer → Response
  | .forbidden => ⟨403, 0⟩
  | .badRequest _ => ⟨400, 0⟩
  | .marshalFailed => ⟨500, 0⟩
  | .appendFailed _ recorded => ⟨500, recorded⟩
  | .ok recorded => ⟨200, recorded⟩

theorem Handler.run_eq_recordFrom {sha256 : Bytes → Bytes} {codec : Codec} {agent : Bytes}
    {calls : Nat → Call} {fuel : Nat} {s : Store σ} {handler : Handler}
    (noLoss : handler.loss = false)
    (enough : handler.batch.decisions.length - handler.recorded < fuel) :
    handler.run sha256 codec agent calls fuel s =
      Prod.map id response (recordFrom sha256 codec.encode calls agent
        handler.batch.bundleRevision s handler.recorded
        (handler.batch.decisions.drop handler.recorded)) := by
  induction fuel generalizing s handler with
  | zero => omega
  | succ fuel ih =>
  rw [Handler.run, Handler.next, noLoss]
  cases found : handler.batch.decisions[handler.recorded]? with
  | none =>
    rw [List.drop_of_length_le (List.getElem?_eq_none_iff.mp found)]
    rfl
  | some d =>
  obtain ⟨within, here⟩ := List.getElem?_eq_some_iff.mp found
  rw [List.drop_eq_getElem_cons within, here, recordFrom]
  cases encoded : marshal codec.encode (decisionFields handler.batch.bundleRevision d) with
  | none =>
    simp only [Bool.false_eq_true, if_false, encoded]
    rfl
  | some payload =>
    simp only [Bool.false_eq_true, if_false, encoded]
    rcases appendAuditOnce sha256 s (calls handler.recorded) (decisionKey agent d.id)
      (decisionDraft agent d payload) with ⟨s', err | appended⟩
    · rfl
    have step : handler.advance = { handler with recorded := handler.recorded + 1 } := by
      rw [Handler.advance, noLoss]
      rfl
    rw [step]
    exact ih noLoss (by dsimp only; omega)

/-- A handler that nothing interrupts is `recordDecisions`. -/
theorem Handler.run_eq_recordDecisions {sha256 : Bytes → Bytes} {calls : Nat → Call}
    {recorders : Recorders} {s : Store σ} {batch : DecisionBatch}
    (authorized : recorders.mayRecordDecisions agent = true) (valid : checkBatch batch = .ok ()) :
    (Handler.start report batch).run sha256 codec agent calls (batch.decisions.length + 2) s =
      Prod.map id response (recordDecisions sha256 codec.encode calls agent recorders s batch) := by
  rw [recordDecisions, authorized, if_neg (by simp), valid]
  by_cases loss : 0 < batch.dropped
  · simp only [loss, if_true]
    rw [Handler.run, Handler.next, Handler.start]
    simp only [loss, decide_true, if_true]
    rcases appendAuditOnce sha256 s (calls 0) (lossKey agent batch.lossID)
      (lossDraft agent batch) with ⟨s', err | appended⟩
    · rfl
    · exact @Handler.run_eq_recordFrom σ sha256 codec agent calls (batch.decisions.length + 1) s'
        ⟨report, batch, false, 0⟩ rfl (Nat.lt_succ_self _)
  · simp only [loss, if_false]
    exact Handler.run_eq_recordFrom (by simp [Handler.start, loss]) (by simp [Handler.start])

theorem run_eq_recordDecisions_lossReport :
    checkBatch lossReport = .ok () ∧ ∀ sha256 report codec calls (s : Store Unit),
      (Handler.start report lossReport).run sha256 codec nodeAgent calls 2 s =
        Prod.map id response
          (recordDecisions sha256 codec.encode calls nodeAgent agentRecorders s lossReport) :=
  ⟨by decide, fun _ _ _ _ _ =>
    @Handler.run_eq_recordDecisions _ nodeAgent _ _ _ _ agentRecorders _ lossReport
      (by decide) (by decide)⟩

/-! ## What is refused -/

/-- The control plane takes the decision: it fits into a body, is read and
passes the checks. -/
def Queued.Accepted (codec : Codec) (queued : Queued) : Prop :=
  queued.alone.body.length ≤ maxJSONBodyBytes ∧
    ∃ d, codec.decode queued.raw = some d ∧ checkDecision d = .ok ()

theorem checkDecisions_eq_ok {index : Nat} :
    checkDecisions index decisions = .ok () ↔ ∀ d ∈ decisions, checkDecision d = .ok () := by
  induction decisions generalizing index with
  | nil => simp [checkDecisions]
  | cons d rest ih =>
  rw [checkDecisions, List.forall_mem_cons]
  cases checked : checkDecision d with
  | error => simp
  | ok => simp [ih]

/-- The checks on a batch without a loss. -/
theorem checkBatch_of_noLoss {revision : Bytes} (some : decisions ≠ [])
    (few : decisions.length ≤ maxDecisionBatch) :
    checkBatch { bundleRevision := revision, decisions } = checkDecisions 0 decisions := by
  unfold checkBatch
  rw [if_neg (by simp [validLossEntries, maxDecisionBatch]), if_neg (by simp),
    if_neg (by simp [some]), if_neg (by simpa using few)]

theorem Report.admit_eq_ok {batch : DecisionBatch} :
    report.accept codec = .ok batch ↔
      report.body.length ≤ maxJSONBodyBytes ∧ report.decode codec = some batch ∧
        checkBatch batch = .ok () := by
  rw [Report.accept, ite_error_eq_ok, not_lt]
  apply and_congr_right
  intro _
  cases decoded : report.decode codec with
  | none => simp
  | some other =>
  dsimp only
  split
  · rename_i err refused
    simp only [reduceCtorEq, Option.some.injEq, false_iff, not_and]
    rintro rfl
    simp [refused]
  · rename_i passed
    simp only [Except.ok.injEq, Option.some.injEq]
    constructor
    · rintro rfl
      exact ⟨rfl, passed⟩
    · exact fun both => both.1

/-- Every decision of an admitted report is accepted. -/
theorem Report.accepted_of_accept {batch : DecisionBatch}
    (admitted : report.accept codec = .ok batch) (member : queued ∈ report.batch)
    (revision : queued.revision = report.revision) :
    queued.Accepted codec := by
  obtain ⟨fits, decoded, checked⟩ := Report.admit_eq_ok.mp admitted
  obtain ⟨read, -⟩ := Report.decode_eq_some decoded
  refine ⟨(Report.length_body_alone member revision).trans fits, ?_⟩
  obtain ⟨i, within, here⟩ := List.getElem_of_mem member
  have item := decodeBatch_get read i
  rw [List.getElem?_eq_getElem within, here, Option.bind_some] at item
  have inside : i < batch.decisions.length := by rw [decodeBatch_length read]; exact within
  rw [List.getElem?_eq_getElem inside] at item
  refine ⟨_, item.symm, ?_⟩
  -- the checks on the decisions come last
  unfold checkBatch at checked
  simp only [ite_error_eq_ok] at checked
  exact checkDecisions_eq_ok.mp checked.2.2.2.2 _ (List.getElem_mem inside)

variable {answer : Response}

/-- A refused report of one decision holds one that is not accepted. -/
theorem Report.not_accepted_of_accept (refused : report.accept codec = .error answer)
    (single : report.batch = [queued]) (revision : queued.revision = report.revision)
    (noLoss : report.droppedIDs = []) :
    ¬ queued.Accepted codec := by
  rintro ⟨fits, d, read, checked⟩
  have body : report.body = queued.alone.body := by
    simp [Report.body, Report.lossFields, Queued.alone, single, noLoss, revision]
  have decoded : report.decode codec =
      some { bundleRevision := report.revision, decisions := [d] } := by
    simp [Report.decode, single, noLoss, read]
  have admitted : report.accept codec =
      .ok { bundleRevision := report.revision, decisions := [d] } := by
    refine Report.admit_eq_ok.mpr ⟨body ▸ fits, decoded, ?_⟩
    rw [checkBatch_of_noLoss (by simp) (by simp [maxDecisionBatch])]
    exact checkDecisions_eq_ok.mpr (by simpa using checked)
  rw [admitted] at refused
  cases refused

/-- The refusals before the first append say that nothing was recorded. -/
theorem Report.recorded_of_accept (refused : report.accept codec = .error answer) :
    answer.recorded = 0 ∧ (answer.status = 400 ∨ answer.status = 413) := by
  unfold Report.accept at refused
  split at refused
  · cases refused
    exact ⟨rfl, .inr rfl⟩
  · split at refused
    · cases refused
      exact ⟨rfl, .inl rfl⟩
    · split at refused
      · cases refused
        exact ⟨rfl, .inl rfl⟩
      · cases refused

/-! ## Keys and rows of an agent -/

theorem decisionKey_injective {id id' : Bytes}
    (same : decisionKey agent id = decisionKey agent id') :
    id = id' := by
  simpa [decisionKey] using same

theorem lossKey_injective {lossID lossID' : Bytes}
    (same : lossKey agent lossID = lossKey agent lossID') : lossID = lossID' := by
  simpa [lossKey] using same

theorem decisionKey_ne_lossKey (agent id lossID : Bytes) :
    decisionKey agent id ≠ lossKey agent lossID := by
  intro same
  simp only [decisionKey, lossKey, List.append_assoc, List.append_cancel_left_eq,
    List.cons_append, List.cons.injEq, true_and] at same
  have first := congrArg List.head? same
  revert first
  simp [show ascii "decision" = [100, 101, 99, 105, 115, 105, 111, 110] by decide,
    show ascii "loss" = [108, 111, 115, 115] by decide]

end OmegaPlane.Agent
