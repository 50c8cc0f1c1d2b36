import OmegaPlane.Agent.System

/-!
# What holds at every step

The queue holds decisions that were made, reports and their answers tell the
truth about the chain, and a key of the agent is in the store only when the row
recorded under it is in the chain.
-/

namespace OmegaPlane.Agent

open Audit Storage Decision

variable {σ : Type} {setup : Setup} {call : EvalCall} {bundle : Bundle}

/-! ## Decisions and their rows -/

/-- A decision with an id the agent drew, which is read back with that id. -/
structure Genuine (setup : Setup) (queued : Queued) : Prop where
  drawn : ∃ random, queued.id = newID random
  read : ∀ d, setup.codec.decode queued.raw = some d → d.id = queued.id

/-- The decision is one the engine made from a bundle, under its revision. -/
def Queued.DecidedWith (setup : Setup) (queued : Queued) (call : EvalCall) (bundle : Bundle)
    (response : EvalResponse) : Prop :=
  call.decide setup.policy setup.codec.marshal bundle = .ok (response, queued)

variable {queued : Queued}

variable {response : EvalResponse} {draft : AuditDraft} {ev : AuditEvent}

theorem Queued.DecidedWith.revision (decided : queued.DecidedWith setup call bundle response) :
    queued.revision = bundle.revision := by
  unfold DecidedWith EvalCall.decide at decided
  split at decided
  · contradiction
  split at decided
  · contradiction
  · cases decided
    rfl

theorem Queued.DecidedWith.genuine (decided : queued.DecidedWith setup call bundle response) :
    Genuine setup queued := by
  unfold DecidedWith EvalCall.decide at decided
  split at decided
  · contradiction
  split at decided
  · contradiction
  · rename_i raw encoded
    cases decided
    exact ⟨⟨call.random, rfl⟩, fun d read => setup.codec.decode_id rfl encoded read⟩

/-- The decision is on the chain, under its revision. -/
def Queued.Recorded (setup : Setup) (rows : List AuditEvent) (queued : Queued) : Prop :=
  ∃ draft, queued.draft setup.codec setup.agent = some draft ∧ ∃ ev ∈ rows, Carries draft ev

theorem Queued.Recorded.mono {rows rows' : List AuditEvent} (recorded : queued.Recorded setup rows)
    (grows : ∀ ev ∈ rows, ev ∈ rows') :
    queued.Recorded setup rows' := by
  obtain ⟨draft, drafted, ev, member, carries⟩ := recorded
  exact ⟨draft, drafted, ev, grows ev member, carries⟩

/-- What a row that carries a decision looks like. -/
theorem Queued.draft_row (genuine : Genuine setup queued)
    (drafted : queued.draft setup.codec setup.agent = some draft) (carries : Carries draft ev) :
    ev.kind = localDecisionKind ∧ ev.actor = setup.agent ∧
      ∃ fields : DecisionFields, fields.decisionID = queued.id ∧
        ev.payload = setup.codec.encode fields := by
  obtain ⟨d, payload, read, encoded, rfl⟩ := Queued.draft_eq_some.mp drafted
  obtain ⟨kind, actor, -, -, content⟩ := carries
  refine ⟨kind, actor, decisionFields queued.revision d, genuine.read d read, ?_⟩
  rw [content, ← marshal_eq_some encoded]
  rfl

variable {queued' : Queued}

theorem Genuine.payload_ne (genuine : Genuine setup queued)
    (drafted : queued.draft setup.codec setup.agent = some draft) (carries : Carries draft ev) :
    ev.payload ≠ ascii "\x7b\x7d" := by
  obtain ⟨-, -, fields, -, content⟩ := Queued.draft_row genuine drafted carries
  rw [content]
  exact setup.codec.encode_ne fields

/-- One row carries one decision. -/
theorem Genuine.id_eq {draft' : AuditDraft} (genuine : Genuine setup queued)
    (genuine' : Genuine setup queued') (drafted : queued.draft setup.codec setup.agent = some draft)
    (drafted' : queued'.draft setup.codec setup.agent = some draft') (carries : Carries draft ev)
    (carries' : Carries draft' ev) : queued.id = queued'.id := by
  obtain ⟨-, -, fields, named, content⟩ := Queued.draft_row genuine drafted carries
  obtain ⟨-, -, fields', named', content'⟩ := Queued.draft_row genuine' drafted' carries'
  obtain ⟨random, drawn⟩ := genuine.drawn
  obtain ⟨random', drawn'⟩ := genuine'.drawn
  rw [← named, ← named']
  exact setup.codec.newID_eq_of_encode_eq (named.trans drawn) (named'.trans drawn')
    (content.symm.trans content')

/-- The loss of a decision is on the chain. -/
def World.LossRecorded (setup : Setup) (w : World σ) (id : Bytes) : Prop :=
  ∃ report ∈ w.sent, id ∈ report.droppedIDs ∧
    ∃ batch, report.decode setup.codec = some batch ∧
      ∃ ev ∈ w.rows, Carries (lossDraft setup.agent batch) ev

/-- Nothing sent and nothing recorded is lost. -/
structure Grows (w w' : World σ) : Prop where
  sent : ∀ report ∈ w.sent, report ∈ w'.sent
  rows : ∀ ev ∈ w.rows, ev ∈ w'.rows

variable {w w' : World σ} {id : Bytes}

theorem Grows.of_rows (sent : w'.sent = w.sent) {new : List AuditEvent}
    (rows : w'.rows = w.rows ++ new) : Grows w w' :=
  ⟨fun _ member => sent ▸ member, fun _ member => rows ▸ List.mem_append_left new member⟩

theorem World.LossRecorded.mono (recorded : w.LossRecorded setup id) (grows : Grows w w') :
    w'.LossRecorded setup id := by
  obtain ⟨report, sent, listed, batch, decoded, ev, member, carries⟩ := recorded
  exact ⟨report, grows.sent report sent, listed, batch, decoded, ev, grows.rows ev member, carries⟩

/-! ## One append -/

/-- What an append under a key leaves. -/
structure AppendEffect (sha256 : Bytes → Bytes) (s : Store σ) (key : Bytes) (draft : AuditDraft)
    (outcome : Store σ × Except StoreError Bool) (new : List AuditEvent) : Prop where
  rows : outcome.1.db.auditLog.rows = s.db.auditLog.rows ++ new
  carried : ∀ ev ∈ new, Carries draft ev ∨ ev.kind = draft.kind ++ ascii ".conflict"
  found : ∀ name row, outcome.1.db.auditOnce.lookup name = some row →
    s.db.auditOnce.lookup name = some row ∨
      name = key ∧ row.digest = eventDigest sha256 draft ∧ ∃ ev ∈ new, Carries draft ev
  done : outcome.2.isOk = true →
    (∃ ev ∈ new, Carries draft ev) ∨ ∃ row, s.db.auditOnce.lookup key = some row

theorem appendAuditOnce_effect (sha256 : Bytes → Bytes) (s : Store σ) (call : Call) (key : Bytes)
    (draft : AuditDraft) :
    ∃ new, AppendEffect sha256 s key draft (appendAuditOnce sha256 s call key draft) new := by
  cases @appendAuditOnce_cases σ sha256 s call key draft with
  | nothing rows once result =>
    refine ⟨[], by simpa using rows, by simp, fun name row found => .inl (once ▸ found), ?_⟩
    rintro succeeded
    rcases result with ⟨err, failed⟩ | ⟨-, row, taken, -⟩
    · rw [failed] at succeeded
      cases succeeded
    · exact .inr ⟨row, taken⟩
  | event ev free writes =>
    have carries : ∃ other ∈ [ev], Carries draft other :=
      ⟨ev, List.mem_singleton_self ev, writes.carries⟩
    refine ⟨[ev], writes.rows, ?_, ?_, fun _ => .inl carries⟩
    · intro other member
      rw [List.mem_singleton.mp member]
      exact .inl writes.carries
    · intro name row found
      rcases appendAuditOnce_found found with old | ⟨same, rfl⟩
      · exact .inl old
      · exact .inr ⟨same, rfl, carries⟩
  | conflict ev row taken different writes once =>
    refine ⟨[ev], writes.rows, ?_, fun name row found => .inl (once ▸ found),
      fun _ => .inr ⟨row, taken⟩⟩
    intro other member
    rw [List.mem_singleton.mp member]
    exact .inr writes.carries.1

/-- The row of a refused report is not one of a decision. -/
theorem deny_effect (setup : Setup) (s : Store σ) (call : Call) :
    ∃ new, (appendAudit setup.sha256 s call (denyDraft setup.agent)).1.db.auditLog.rows =
        s.db.auditLog.rows ++ new ∧ ∀ ev ∈ new, ev.payload = ascii "\x7b\x7d" := by
  rcases @appendAudit_outcome σ setup.sha256 s call (denyDraft setup.agent) with same | appends
  · exact ⟨[], by rw [same, List.append_nil], by simp⟩
  · obtain ⟨ev, writes⟩ := appends.writes
    exact ⟨[ev], writes.rows, List.forall_mem_singleton.mpr writes.carries.2.2.2.2⟩

/-! ## The invariant -/

structure QueueSound (setup : Setup) (w : World σ) : Prop where
  ids : (w.made.map Queued.id).Nodup
  decidedWith : ∀ queued ∈ w.made, ∃ call bundle response,
    queued.DecidedWith setup call bundle response
  pending : ∀ queued ∈ w.pdp.pending, queued ∈ w.made
  decided : ∀ queued ∈ w.decided, queued ∈ w.made

theorem QueueSound.genuine (sound : QueueSound setup w) (member : queued ∈ w.made) :
    Genuine setup queued := by
  obtain ⟨call, bundle, response, decided⟩ := sound.decidedWith queued member
  exact decided.genuine

theorem QueueSound.eq_of_id (sound : QueueSound setup w) (member : queued ∈ w.made)
    (member' : queued' ∈ w.made) (same : queued.id = queued'.id) :
    queued = queued' :=
  List.inj_on_of_nodup_map sound.ids member member' same

/-- A report holds decisions of its revision, or the loss of one decision. -/
structure ReportSound (w : World σ) (report : Report) : Prop where
  batch : ∀ queued ∈ report.batch, queued ∈ w.made ∧ queued.revision = report.revision
  loss : report.droppedIDs = [] ∨ report.batch = [] ∧
    ∃ id, report.droppedIDs = [id] ∧ (report.lossID, id) ∈ w.losses

/-- A key of the agent is in the store only with the row recorded under it, and
only accepted decisions are recorded. -/
structure ChainSound (setup : Setup) (w : World σ) : Prop where
  keys : ∀ queued ∈ w.made, ∀ row,
    w.store.db.auditOnce.lookup (decisionKey setup.agent queued.id) = some row →
      queued.Recorded setup w.rows
  lossKeys : ∀ loss ∈ w.losses, ∀ row,
    w.store.db.auditOnce.lookup (lossKey setup.agent loss.1) = some row →
      w.LossRecorded setup loss.2
  accepted : ∀ queued ∈ w.made, queued.Recorded setup w.rows → queued.Accepted setup.codec

/-- What a handler counts as recorded is on the chain. -/
structure HandlerSound (setup : Setup) (w : World σ) (handler : Handler) : Prop where
  sent : handler.report ∈ w.sent
  admitted : handler.report.accept setup.codec = .ok handler.batch
  recorded : ∀ queued ∈ handler.report.batch.take handler.recorded, queued.Recorded setup w.rows
  lossFirst : handler.loss = true → handler.recorded = 0 ∧ handler.report.droppedIDs ≠ []
  reported : handler.loss = false → ∀ id ∈ handler.report.droppedIDs, w.LossRecorded setup id

/-- What an answer says was recorded is on the chain, and what it rejects is not
accepted. -/
structure AnswerSound (setup : Setup) (w : World σ) (report : Report) (response : Response) :
    Prop where
  sent : report ∈ w.sent
  all : response.status = 200 → (∀ queued ∈ report.batch, queued.Recorded setup w.rows) ∧
    ∀ id ∈ report.droppedIDs, w.LossRecorded setup id
  partly : ∀ queued ∈ report.batch.take response.recorded, queued.Recorded setup w.rows
  rejected : response.status = 400 ∨ response.status = 413 → response.recorded = 0 ∧
    ∀ queued, report.batch = [queued] → ¬ queued.Accepted setup.codec

structure Sound (setup : Setup) (w : World σ) : Prop where
  queue : QueueSound setup w
  reports : ∀ report ∈ w.sent, ReportSound w report
  waiting : ∀ report, w.flusher = .waiting report → report ∈ w.sent ∧ Reports w.pdp report
  lost : w.pdp.droppedIDs = [] ∧ w.pdp.lossID = [] ∨
    ∃ id, w.pdp.droppedIDs = [id] ∧ (w.pdp.lossID, id) ∈ w.losses
  lossIDs : (w.losses.map Prod.fst).Nodup
  chain : ChainSound setup w
  handlers : ∀ handler ∈ w.handlers, HandlerSound setup w handler
  answers : ∀ answer ∈ w.answers, AnswerSound setup w answer.1 answer.2

theorem Sound.start (store : Store σ) (clock : Int) : Sound setup (World.start store clock) where
  queue := ⟨List.nodup_nil, by simp, by simp [PDP.new], by simp⟩
  reports := by simp
  waiting := by simp
  lost := .inl ⟨rfl, rfl⟩
  lossIDs := List.nodup_nil
  chain := ⟨by simp, by simp, by simp⟩
  handlers := by simp
  answers := by simp

/-! ## Frames -/

variable {report : Report} {handler : Handler}

theorem ReportSound.mono (sound : ReportSound w report) (made : ∀ queued ∈ w.made, queued ∈ w'.made)
    (losses : ∀ loss ∈ w.losses, loss ∈ w'.losses) :
    ReportSound w' report := by
  refine ⟨fun queued member => ?_, ?_⟩
  · obtain ⟨known, revision⟩ := sound.batch queued member
    exact ⟨made queued known, revision⟩
  · rcases sound.loss with none | ⟨empty, id, single, drawn⟩
    · exact .inl none
    · exact .inr ⟨empty, id, single, losses _ drawn⟩

theorem HandlerSound.mono (sound : HandlerSound setup w handler) (grows : Grows w w') :
    HandlerSound setup w' handler where
  sent := grows.sent _ sound.sent
  admitted := sound.admitted
  recorded queued member := (sound.recorded queued member).mono grows.rows
  lossFirst := sound.lossFirst
  reported noLoss id member := (sound.reported noLoss id member).mono grows

variable {response : Response} {pdp : PDP} {flusher : Flusher} {syncing : Option Bundle}
  {calls : List EvalCall} {decided answered : List Queued}

theorem AnswerSound.mono (sound : AnswerSound setup w report response) (grows : Grows w w') :
    AnswerSound setup w' report response where
  sent := grows.sent _ sound.sent
  all status :=
    ⟨fun queued member => ((sound.all status).1 queued member).mono grows.rows,
      fun id member => ((sound.all status).2 id member).mono grows⟩
  partly queued member := (sound.partly queued member).mono grows.rows
  rejected := sound.rejected

theorem Sound.handlers_mono (sound : Sound setup w) (grows : Grows w w') :
    ∀ handler ∈ w.handlers, HandlerSound setup w' handler :=
  fun handler member => (sound.handlers handler member).mono grows

theorem Sound.answers_mono (sound : Sound setup w) (grows : Grows w w') :
    ∀ answer ∈ w.answers, AnswerSound setup w' answer.1 answer.2 :=
  fun answer member => (sound.answers answer member).mono grows

/-- Steps that change only what the agent has in memory. -/
theorem Sound.of_memory (sound : Sound setup w)
    (pending : ∀ queued ∈ pdp.pending, queued ∈ w.made)
    (deciding : ∀ queued ∈ decided, queued ∈ w.made)
    (waiting : ∀ report, flusher = .waiting report → report ∈ w.sent ∧ Reports pdp report)
    (lost : pdp.droppedIDs = [] ∧ pdp.lossID = [] ∨
      ∃ id, pdp.droppedIDs = [id] ∧ (pdp.lossID, id) ∈ w.losses) :
    Sound setup
      { w with
        pdp := pdp, syncing := syncing, deciding := calls, decided := decided, flusher := flusher,
        answered := answered } where
  queue := ⟨sound.queue.ids, sound.queue.decidedWith, pending, deciding⟩
  reports := fun report member => (sound.reports report member).mono (fun _ => id) (fun _ => id)
  waiting := waiting
  lost := lost
  lossIDs := sound.lossIDs
  chain := ⟨sound.chain.keys, sound.chain.lossKeys, sound.chain.accepted⟩
  handlers := sound.handlers_mono ⟨fun _ => id, fun _ => id⟩
  answers := sound.answers_mono ⟨fun _ => id, fun _ => id⟩

/-- The queue grows, and the losses are left alone. -/
theorem Sound.of_queue (sound : Sound setup w) (queue : w.pdp.pending <+: pdp.pending)
    (pending : ∀ queued ∈ pdp.pending, queued ∈ w.made)
    (deciding : ∀ queued ∈ decided, queued ∈ w.decided)
    (droppedIDs : pdp.droppedIDs = w.pdp.droppedIDs) (lossID : pdp.lossID = w.pdp.lossID) :
    Sound setup
      { w with
        pdp := pdp, syncing := syncing, deciding := calls, decided := decided,
        answered := answered } := by
  refine sound.of_memory pending (fun queued member => ?_) ?_ ?_
  · exact sound.queue.decided queued (deciding queued member)
  · intro report waits
    obtain ⟨sent, reports⟩ := sound.waiting report waits
    exact ⟨sent, reports.batch.trans queue, reports.revision, droppedIDs ▸ reports.droppedIDs,
      lossID ▸ reports.lossID, reports.alone⟩
  · rw [droppedIDs, lossID]
    exact sound.lost

/-- Steps of the agent that leave the queue alone too. -/
theorem Sound.of_agent (sound : Sound setup w) (pending : pdp.pending = w.pdp.pending)
    (droppedIDs : pdp.droppedIDs = w.pdp.droppedIDs) (lossID : pdp.lossID = w.pdp.lossID) :
    Sound setup { w with pdp := pdp, syncing := syncing, deciding := calls } :=
  sound.of_queue (pending ▸ List.prefix_rfl) (pending ▸ sound.queue.pending) (fun _ => id)
    droppedIDs lossID

/-- The flush goes on without waiting for an answer. -/
theorem Sound.of_flusher (sound : Sound setup w) (free : ∀ report, flusher ≠ .waiting report) :
    Sound setup { w with flusher := flusher } :=
  sound.of_memory sound.queue.pending sound.queue.decided
    (fun report waits => absurd waits (free report)) sound.lost

variable {store : Store σ} {now : Int}

/-- Steps of the control plane: the chain grows by rows that carry only accepted
decisions, and a new key comes with its row. -/
theorem Sound.of_store (sound : Sound setup w) {handlers : List Handler}
    {answers : List (Report × Response)} {clock : Int} {noted : List (Bytes × Int)}
    {new : List AuditEvent} (rows : store.db.auditLog.rows = w.rows ++ new)
    (carried : ∀ ev ∈ new, ∀ queued ∈ w.made, ∀ draft,
      queued.draft setup.codec setup.agent = some draft → Carries draft ev →
        queued.Accepted setup.codec)
    (keys : ∀ queued ∈ w.made, ∀ row,
      store.db.auditOnce.lookup (decisionKey setup.agent queued.id) = some row →
        w.store.db.auditOnce.lookup (decisionKey setup.agent queued.id) = some row ∨
          queued.Recorded setup store.db.auditLog.rows)
    (lossKeys : ∀ loss ∈ w.losses, ∀ row,
      store.db.auditOnce.lookup (lossKey setup.agent loss.1) = some row →
        w.store.db.auditOnce.lookup (lossKey setup.agent loss.1) = some row ∨
          { w with store := store }.LossRecorded setup loss.2)
    (handlersSound : ∀ handler ∈ handlers, HandlerSound setup { w with store := store } handler)
    (answersSound : ∀ answer ∈ answers,
      AnswerSound setup { w with store := store } answer.1 answer.2) :
    Sound setup
      { w with
        store := store, handlers := handlers, answers := answers, clock := clock,
        noted := noted } := by
  have grows : ∀ ev ∈ w.rows, ev ∈ store.db.auditLog.rows := fun ev member =>
    rows ▸ List.mem_append_left new member
  refine ⟨⟨sound.queue.ids, sound.queue.decidedWith, sound.queue.pending, sound.queue.decided⟩,
    fun report member => (sound.reports report member).mono (fun _ => id) (fun _ => id),
    sound.waiting, sound.lost, sound.lossIDs, ⟨?_, ?_, ?_⟩, ?_, ?_⟩
  · intro queued known row found
    rcases keys queued known row found with old | recorded
    · exact (sound.chain.keys queued known row old).mono grows
    · exact recorded
  · intro loss drawn row found
    rcases lossKeys loss drawn row found with old | recorded
    · exact (sound.chain.lossKeys loss drawn row old).mono ⟨fun _ => id, grows⟩
    · exact recorded.mono ⟨fun _ => id, fun _ => id⟩
  · rintro queued known ⟨draft, drafted, ev, member, carries⟩
    have member' : ev ∈ w.rows ++ new := rows ▸ member
    rcases List.mem_append.mp member' with old | fresh
    · exact sound.chain.accepted queued known ⟨draft, drafted, ev, old, carries⟩
    · exact carried ev fresh queued known draft drafted carries
  · exact fun handler member => (handlersSound handler member).mono ⟨fun _ => id, fun _ => id⟩
  · exact fun answer member => (answersSound answer member).mono ⟨fun _ => id, fun _ => id⟩

/-! ## Steps of the agent -/

theorem PDP.reserve_eq_ok {config : Config} {held : PDP}
    (reserved : pdp.reserve config now = .ok held) :
    held = { pdp with reserved := pdp.reserved + 1 } := by
  simp only [PDP.reserve, ite_error_eq_ok, Except.ok.injEq] at reserved
  exact reserved.2.2.symm

theorem Sound.decide (sound : Sound setup w) {deciding : List EvalCall} {response : EvalResponse}
    (decided : queued.DecidedWith setup call bundle response) (fresh : w.Fresh setup queued.id) :
    Sound setup
      { w with
        deciding := deciding, decided := queued :: w.decided, made := queued :: w.made } := by
  obtain ⟨unused, keyFree, unnamed⟩ := fresh
  have grows : Grows w
      { w with
        deciding := deciding, decided := queued :: w.decided, made := queued :: w.made } :=
    ⟨fun _ => id, fun _ => id⟩
  refine ⟨⟨?_, ?_, ?_, ?_⟩, ?_, sound.waiting, sound.lost, sound.lossIDs, ⟨?_, ?_, ?_⟩, ?_, ?_⟩
  · rw [List.map_cons, List.nodup_cons]
    refine ⟨?_, sound.queue.ids⟩
    intro member
    obtain ⟨other, known, same⟩ := List.mem_map.mp member
    exact unused other known same
  · exact List.forall_mem_cons.mpr ⟨⟨call, bundle, response, decided⟩, sound.queue.decidedWith⟩
  · exact fun other member => List.mem_cons_of_mem _ (sound.queue.pending other member)
  · intro other member
    rcases List.mem_cons.mp member with rfl | old
    · exact List.mem_cons_self
    · exact List.mem_cons_of_mem _ (sound.queue.decided other old)
  · exact fun report member =>
      (sound.reports report member).mono (fun _ => List.mem_cons_of_mem _) (fun _ => id)
  · refine List.forall_mem_cons.mpr ⟨?_, sound.chain.keys⟩
    intro row found
    rw [keyFree] at found
    contradiction
  · exact fun loss drawn row found => (sound.chain.lossKeys loss drawn row found).mono grows
  · refine List.forall_mem_cons.mpr ⟨?_, sound.chain.accepted⟩
    rintro ⟨draft, drafted, ev, member, carries⟩
    obtain ⟨-, -, fields, named, content⟩ := Queued.draft_row decided.genuine drafted carries
    exact absurd content (unnamed ev member fields named)
  · exact sound.handlers_mono grows
  · exact sound.answers_mono grows

theorem Sound.send (sound : Sound setup w) (reported : w.pdp.report = some report) :
    Sound setup { w with flusher := .waiting report, sent := report :: w.sent } := by
  have reports := PDP.reports_of_report reported
  have grows : Grows w { w with flusher := .waiting report, sent := report :: w.sent } :=
    ⟨fun _ => List.mem_cons_of_mem _, fun _ => id⟩
  refine ⟨⟨sound.queue.ids, sound.queue.decidedWith, sound.queue.pending, sound.queue.decided⟩,
    ?_, ?_, sound.lost, sound.lossIDs, ⟨sound.chain.keys, ?_, sound.chain.accepted⟩, ?_, ?_⟩
  · refine List.forall_mem_cons.mpr ⟨⟨?_, ?_⟩, fun other member =>
      (sound.reports other member).mono (fun _ => id) (fun _ => id)⟩
    · intro queued member
      exact ⟨sound.queue.pending queued (reports.batch.subset member),
        reports.revision queued member⟩
    · rcases reports.alone with none | empty
      · exact .inl none
      · rcases sound.lost with ⟨none, -⟩ | ⟨id, single, drawn⟩
        · exact .inl (reports.droppedIDs.trans none)
        · exact .inr ⟨empty, id, reports.droppedIDs.trans single, reports.lossID ▸ drawn⟩
  · intro other waits
    cases waits
    exact ⟨List.mem_cons_self, reports⟩
  · exact fun loss drawn row found => (sound.chain.lossKeys loss drawn row found).mono grows
  · exact sound.handlers_mono grows
  · exact sound.answers_mono grows

/-- An answer that is read without its count tells less. -/
theorem Sound.received (sound : Sound setup w) (received : w.Received report response) :
    AnswerSound setup w report response := by
  rcases received with whole | ⟨recorded, given, zero⟩
  · exact sound.answers _ whole
  have told := sound.answers _ given
  refine ⟨told.sent, told.all, ?_, ?_⟩
  · rw [zero, List.take_zero]
    simp
  · exact fun status => ⟨zero, (told.rejected status).2⟩

theorem Report.partly_le (report : Report) (response : Response) :
    report.partly response ≤ response.recorded ∧ report.partly response ≤ report.batch.length := by
  unfold Report.partly
  split <;> omega

/-- The decisions an answer takes off the queue are those at its front. -/
theorem mem_drop_or_mem_take {pending : List Queued} {batch : List Queued} {count : Nat}
    (front : batch <+: pending) (within : count ≤ batch.length) (member : queued ∈ pending) :
    queued ∈ batch.take count ∨ queued ∈ pending.drop count := by
  rw [← List.take_append_drop count pending] at member
  rcases List.mem_append.mp member with early | late
  · obtain ⟨rest, rfl⟩ := front
    rw [List.take_append_of_le_length within] at early
    exact .inl early
  · exact .inr late

/-- A drop takes the one decision of a rejected report off the queue. -/
theorem Sound.dropped_first (sound : Sound setup w) {first : Queued} {rest : List Queued}
    (waiting : w.flusher = .waiting report) (received : w.Received report response)
    (status : response.status = 400 ∨ response.status = 413) (some : report.batch ≠ [])
    (left : report.batch.length - report.partly response ≤ 1)
    (pending : w.pdp.pending.drop (report.partly response) = first :: rest) :
    w.pdp.pending = first :: rest ∧ report.batch = [first] ∧ w.pdp.droppedIDs = [] ∧
      w.pdp.lossID = [] ∧ ¬ first.Accepted setup.codec := by
  have told := sound.received received
  obtain ⟨zero, refused⟩ := told.rejected status
  have none : report.partly response = 0 := by
    have bound := (report.partly_le response).1
    omega
  rw [none, List.drop_zero] at pending
  rw [none] at left
  obtain ⟨-, reports⟩ := sound.waiting report waiting
  obtain ⟨queued, single⟩ : ∃ queued, report.batch = [queued] :=
    List.length_eq_one_iff.mp (by have := List.length_pos_of_ne_nil some; omega)
  have same : queued = first := by
    have front := reports.batch
    rw [single, pending] at front
    exact (List.cons_prefix_cons.mp front).1
  have noLoss : w.pdp.droppedIDs = [] := by
    rw [← reports.droppedIDs]
    exact reports.alone.resolve_right some
  refine ⟨pending, same ▸ single, noLoss, ?_, refused first (same ▸ single)⟩
  rcases sound.lost with ⟨-, unset⟩ | ⟨id, one, -⟩
  · exact unset
  · rw [noLoss] at one
    contradiction

/-- The queue and the losses after an answer, while nothing else changed. -/
theorem Sound.of_response (sound : Sound setup w) {losses : List (Bytes × Bytes)}
    (free : ∀ report, flusher ≠ .waiting report)
    (pending : ∀ queued ∈ pdp.pending, queued ∈ w.pdp.pending)
    (lost : pdp.droppedIDs = [] ∧ pdp.lossID = [] ∨
      ∃ id, pdp.droppedIDs = [id] ∧ (pdp.lossID, id) ∈ losses)
    (old : ∀ loss ∈ w.losses, loss ∈ losses) (lossIDs : (losses.map Prod.fst).Nodup)
    (unused : ∀ loss ∈ losses, loss ∈ w.losses ∨
      w.store.db.auditOnce.lookup (lossKey setup.agent loss.1) = none) :
    Sound setup { w with pdp := pdp, flusher := flusher, losses := losses } where
  queue := ⟨sound.queue.ids, sound.queue.decidedWith,
    fun queued member => sound.queue.pending queued (pending queued member), sound.queue.decided⟩
  reports := fun report member => (sound.reports report member).mono (fun _ => id) old
  waiting := fun report waits => absurd waits (free report)
  lost := lost
  lossIDs := lossIDs
  chain := by
    refine ⟨sound.chain.keys, ?_, sound.chain.accepted⟩
    intro loss drawn row found
    rcases unused loss drawn with known | absent
    · exact (sound.chain.lossKeys loss known row found).mono ⟨fun _ => id, fun _ => id⟩
    · rw [absent] at found
      contradiction
  handlers := sound.handlers_mono ⟨fun _ => id, fun _ => id⟩
  answers := sound.answers_mono ⟨fun _ => id, fun _ => id⟩

theorem Sound.receive (sound : Sound setup w) {handling : Handling} {after : PDP}
    (waiting : w.flusher = .waiting report) (received : w.Received report response)
    (fresh : w.pdp.droppedIDs.length < after.droppedIDs.length →
      w.FreshLoss setup (newID handling.random)) (free : ∀ report, flusher ≠ .waiting report)
    (handled : Handled w.pdp report response handling after) :
    Sound setup
      { w with
        pdp := after
        flusher := flusher
        losses := ((after.droppedIDs.drop w.pdp.droppedIDs.length).map fun id =>
          (after.lossID, id)) ++ w.losses } := by
  obtain ⟨-, reports⟩ := sound.waiting report waiting
  cases handled with
  | accepted status pending droppedIDs lossID =>
    rw [reports.droppedIDs, List.drop_length] at droppedIDs
    rw [droppedIDs, List.drop_nil, List.map_nil, List.nil_append]
    refine sound.of_response free ?_ (.inl ⟨droppedIDs, ?_⟩) (fun _ => id) sound.lossIDs
      (fun _ => .inl)
    · exact fun queued member => List.mem_of_mem_drop (pending ▸ member)
    rw [lossID, reports.droppedIDs, List.drop_length]
    rcases sound.lost with ⟨none, unset⟩ | ⟨id, single, -⟩
    · simp [none, unset]
    · simp [single]
  | kept status pending droppedIDs lossID =>
    rw [droppedIDs, List.drop_length, List.map_nil, List.nil_append]
    refine sound.of_response free ?_ ?_ (fun _ => id) sound.lossIDs (fun _ => .inl)
    · exact fun queued member => List.mem_of_mem_drop (pending ▸ member)
    · rw [droppedIDs, lossID]
      exact sound.lost
  | dropped first status some left pending droppedIDs lossID =>
    obtain ⟨queue, -, none, unset, -⟩ :=
      sound.dropped_first waiting received status some left pending
    rw [none, List.nil_append] at droppedIDs
    rw [unset, if_pos rfl] at lossID
    obtain ⟨unused, keyFree⟩ := fresh (by simp [droppedIDs, none])
    rw [droppedIDs, none, lossID]
    refine sound.of_response free ?_ (.inr ⟨first.id, droppedIDs, ?_⟩) ?_ ?_ ?_
    · intro queued member
      rw [queue]
      exact List.mem_cons_of_mem _ member
    · rw [lossID]
      exact List.mem_append_left _ (by simp)
    · exact fun loss member => List.mem_append_right _ member
    · simp only [List.length_nil, List.drop_zero, List.map_cons, List.map_nil,
        List.singleton_append, List.nodup_cons]
      refine ⟨?_, sound.lossIDs⟩
      intro member
      obtain ⟨loss, known, same⟩ := List.mem_map.mp member
      exact unused loss known same
    · intro loss member
      rcases List.mem_append.mp member with drawn | known
      · simp only [List.length_nil, List.drop_zero, List.map_cons, List.map_nil,
          List.mem_singleton] at drawn
        rw [drawn]
        exact .inr keyFree
      · exact .inl known

/-! ## Steps of the control plane -/

/-- What the next append of a handler is. -/
inductive NextAppend (setup : Setup) (w : World σ) (handler : Handler) (key : Bytes)
    (draft : AuditDraft) : Prop where
  | loss (pending : handler.loss = true)
      (key : key = lossKey setup.agent handler.batch.lossID)
      (draft : draft = lossDraft setup.agent handler.batch)
  | decision (queued : Queued) (noLoss : handler.loss = false) (made : queued ∈ w.made)
      (here : handler.report.batch[handler.recorded]? = some queued)
      (key : key = decisionKey setup.agent queued.id)
      (drafted : queued.draft setup.codec setup.agent = some draft)
      (accepted : queued.Accepted setup.codec)

variable {key : Bytes}

theorem Sound.nextAppend (sound : Sound setup w) (handlerSound : HandlerSound setup w handler)
    (next : handler.next setup.codec setup.agent = .inr (key, draft)) :
    NextAppend setup w handler key draft := by
  unfold Handler.next at next
  split at next
  · rename_i pending
    cases next
    exact .loss pending rfl rfl
  · rename_i noLoss
    split at next
    · contradiction
    rename_i d found
    split at next
    · contradiction
    rename_i payload encoded
    cases next
    obtain ⟨-, decoded, -⟩ := Report.admit_eq_ok.mp handlerSound.admitted
    obtain ⟨read, revision, -⟩ := Report.decode_eq_some decoded
    rw [decodeBatch_get read, Option.bind_eq_some_iff] at found
    obtain ⟨queued, here, parsed⟩ := found
    have member := List.mem_of_getElem? here
    obtain ⟨made, sameRevision⟩ := (sound.reports _ handlerSound.sent).batch queued member
    refine .decision queued (by simpa using noLoss) made here ?_ ?_
      (Report.accepted_of_accept handlerSound.admitted member sameRevision)
    · rw [(sound.queue.genuine made).read d parsed]
    · rw [revision, ← sameRevision] at encoded
      exact Queued.draft_eq_some.mpr ⟨d, payload, parsed, encoded, rfl⟩

theorem localDecisionKind_ne_append {suffix : Bytes} (some : suffix ≠ []) :
    localDecisionKind ++ suffix ≠ localDecisionKind := by
  simp [some]

/-- A row written for the next append of a handler carries a decision only when
that decision is the one appended. -/
theorem Sound.appends_of_carries (sound : Sound setup w)
    (next : NextAppend setup w handler key draft)
    (row : Carries draft ev ∨ ev.kind = draft.kind ++ ascii ".conflict") (made : queued ∈ w.made)
    {own : AuditDraft} (drafted : queued.draft setup.codec setup.agent = some own)
    (carries : Carries own ev) :
    key = decisionKey setup.agent queued.id ∧ queued.Accepted setup.codec := by
  obtain ⟨kind, -⟩ := Queued.draft_row (sound.queue.genuine made) drafted carries
  cases next with
  | loss pending keyEq draftEq =>
    subst draftEq
    rcases row with carried | conflict
    · exact absurd (carried.1.symm.trans kind) (localDecisionKind_ne_append (by decide))
    · refine absurd (conflict.symm.trans kind) ?_
      simp only [lossDraft, List.append_assoc]
      exact localDecisionKind_ne_append (by decide)
  | decision other noLoss otherMade here keyEq otherDrafted accepted =>
    rcases row with carried | conflict
    · have same := (sound.queue.genuine made).id_eq (sound.queue.genuine otherMade) drafted
        otherDrafted carries carried
      rw [sound.queue.eq_of_id made otherMade same]
      exact ⟨keyEq, accepted⟩
    · obtain ⟨d, payload, -, -, rfl⟩ := Queued.draft_eq_some.mp otherDrafted
      exact absurd (conflict.symm.trans kind) (localDecisionKind_ne_append (by decide))

/-- The loss a handler appends is recorded once its row or its key is there. -/
theorem HandlerSound.lossRecorded (handlerSound : HandlerSound setup w handler) (grows : Grows w w')
    (member : ev ∈ w'.rows) (carries : Carries (lossDraft setup.agent handler.batch) ev)
    (listed : id ∈ handler.report.droppedIDs) : w'.LossRecorded setup id := by
  obtain ⟨-, decoded, -⟩ := Report.admit_eq_ok.mp handlerSound.admitted
  exact ⟨_, grows.sent _ handlerSound.sent, listed, handler.batch, decoded, ev, member, carries⟩

/-- The loss of a handler is the one its loss id was drawn for. -/
theorem Sound.handler_loss (sound : Sound setup w) (handlerSound : HandlerSound setup w handler)
    (some : handler.report.droppedIDs ≠ []) :
    ∃ id, handler.report.droppedIDs = [id] ∧ (handler.batch.lossID, id) ∈ w.losses := by
  obtain ⟨-, decoded, -⟩ := Report.admit_eq_ok.mp handlerSound.admitted
  obtain ⟨-, -, -, -, lossID⟩ := Report.decode_eq_some decoded
  obtain ⟨-, id, single, drawn⟩ :=
    (sound.reports _ handlerSound.sent).loss.resolve_left some
  exact ⟨id, single, lossID some ▸ drawn⟩

/-- A handler after a successful append. -/
theorem Sound.advance (sound : Sound setup w) (handlerSound : HandlerSound setup w handler)
    (next : NextAppend setup w handler key draft) (grows : Grows w w')

    (done : (∃ ev ∈ w'.rows, Carries draft ev) ∨ ∃ row, w.store.db.auditOnce.lookup key = some row) :
    HandlerSound setup w' handler.advance := by
  have kept := handlerSound.mono grows
  cases next with
  | loss pending keyEq draftEq =>
    subst keyEq draftEq
    obtain ⟨zero, some⟩ := handlerSound.lossFirst pending
    have advanced : handler.advance = { handler with loss := false } := by
      rw [Handler.advance, pending]
      rfl
    rw [advanced]
    refine ⟨kept.sent, kept.admitted, kept.recorded, by simp, ?_⟩
    intro _ id listed
    rcases done with ⟨ev, member, carries⟩ | ⟨row, found⟩
    · exact handlerSound.lossRecorded grows member carries listed
    obtain ⟨other, single, drawn⟩ := sound.handler_loss handlerSound some
    have same : id = other := by
      rw [single] at listed
      exact List.mem_singleton.mp listed
    rw [same]
    exact (sound.chain.lossKeys _ drawn row found).mono grows
  | decision queued noLoss made here keyEq drafted =>
    subst keyEq
    have advanced : handler.advance = { handler with recorded := handler.recorded + 1 } := by
      rw [Handler.advance, noLoss]
      rfl
    rw [advanced]
    refine ⟨kept.sent, kept.admitted, ?_, by simp [noLoss], kept.reported⟩
    intro other member
    rw [List.take_add_one, here] at member
    rcases List.mem_append.mp member with earlier | last
    · exact kept.recorded other earlier
    obtain rfl : other = queued := by simpa using last
    rcases done with ⟨ev, recorded, carries⟩ | ⟨row, found⟩
    · exact ⟨draft, drafted, ev, recorded, carries⟩
    · exact (sound.chain.keys other made row found).mono grows.rows

variable {before after : List Handler} {timed : Bool}

section

variable (sound : Sound setup w)
include sound

theorem Sound.append (call : Call)
    (running : w.handlers = before ++ handler :: after)
    (next : handler.next setup.codec setup.agent = .inr (key, draft)) :
    Sound setup (w.append setup before handler after key draft call) := by
  have handlerSound := sound.handlers handler (by simp [running])
  have step := sound.nextAppend handlerSound next
  obtain ⟨new, effect⟩ := appendAuditOnce_effect setup.sha256 w.store call key draft
  generalize outcomeEq : appendAuditOnce setup.sha256 w.store call key draft = outcome at effect
  unfold World.append
  rw [outcomeEq]
  have grows : Grows w { w with store := outcome.1 } := .of_rows rfl effect.rows
  have newMember : ∀ ev ∈ new, ev ∈ outcome.1.db.auditLog.rows := fun ev member =>
    effect.rows ▸ List.mem_append_right w.rows member
  refine sound.of_store effect.rows ?_ ?_ ?_ ?_ ?_
  · intro ev member queued made own drafted carries
    exact (sound.appends_of_carries step (effect.carried ev member) made drafted carries).2
  · intro queued made row found
    rcases effect.found _ row found with old | ⟨same, -, ev, member, carries⟩
    · exact .inl old
    refine .inr ?_
    cases step with
    | loss pending keyEq => exact absurd (same.trans keyEq) (decisionKey_ne_lossKey _ _ _)
    | decision other noLoss otherMade here keyEq drafted =>
      have ids := decisionKey_injective (same.trans keyEq)
      rw [sound.queue.eq_of_id made otherMade ids]
      exact ⟨draft, drafted, ev, newMember ev member, carries⟩
  · intro loss drawn row found
    rcases effect.found _ row found with old | ⟨same, -, ev, member, carries⟩
    · exact .inl old
    refine .inr ?_
    cases step with
    | loss pending keyEq draftEq =>
      subst draftEq
      obtain ⟨id, single, handlerDrawn⟩ :=
        sound.handler_loss handlerSound (handlerSound.lossFirst pending).2
      have lossEq : loss = (handler.batch.lossID, id) :=
        List.inj_on_of_nodup_map sound.lossIDs drawn handlerDrawn
          (lossKey_injective (same.trans keyEq))
      rw [lossEq]
      exact handlerSound.lossRecorded grows (newMember ev member) carries (by simp [single])
    | decision other noLoss otherMade here keyEq =>
      exact absurd (same.trans keyEq).symm (decisionKey_ne_lossKey _ _ _)
  · intro other member
    simp only [List.mem_append] at member
    rcases member with (earlier | advanced) | later
    · exact (sound.handlers other (by simp [running, earlier])).mono grows
    · split at advanced
      · rename_i succeeded
        rw [List.mem_singleton.mp advanced]
        refine sound.advance handlerSound step grows ?_
        rcases effect.done succeeded with ⟨ev, evMember, carries⟩ | found
        · exact .inl ⟨ev, newMember ev evMember, carries⟩
        · exact .inr found
      · simp at advanced
    · exact (sound.handlers other (by simp [running, later])).mono grows
  · intro answer member
    split at member
    · exact (sound.answers answer member).mono grows
    rcases List.mem_cons.mp member with rfl | old
    · have kept := handlerSound.mono grows
      exact ⟨kept.sent, by simp, kept.recorded, by simp⟩
    · exact (sound.answers answer old).mono grows

theorem Sound.complete (running : w.handlers = before ++ handler :: after)
    (next : handler.next setup.codec setup.agent = .inl response) :
    Sound setup
      { w with
        handlers := before ++ after, answers := (handler.report, response) :: w.answers } := by
  have handlerSound := sound.handlers handler (by simp [running])
  refine sound.of_store (List.append_nil _).symm (by simp) (fun _ _ _ => .inl)
    (fun _ _ _ => .inl) ?_ ?_
  · intro other member
    apply sound.handlers other
    rw [running]
    simp only [List.mem_append, List.mem_cons] at member ⊢
    tauto
  · refine List.forall_mem_cons.mpr ⟨?_, sound.answers⟩
    unfold Handler.next at next
    split at next
    · contradiction
    rename_i noLoss
    split at next
    · rename_i finished
      cases next
      obtain ⟨-, decoded, -⟩ := Report.admit_eq_ok.mp handlerSound.admitted
      have length := decodeBatch_length (Report.decode_eq_some decoded).1
      have whole : handler.report.batch.take handler.recorded = handler.report.batch :=
        List.take_of_length_le (by
          rw [← length]
          exact List.getElem?_eq_none_iff.mp finished)
      have recorded := handlerSound.recorded
      rw [whole] at recorded
      exact ⟨handlerSound.sent,
        fun _ => ⟨recorded, handlerSound.reported (by simpa using noLoss)⟩,
        handlerSound.recorded, by simp⟩
    · split at next
      · cases next
        exact ⟨handlerSound.sent, by simp, by simp, by simp⟩
      · contradiction

theorem Sound.reject (member : report ∈ w.sent)
    (refused : report.accept setup.codec = .error response) :
    Sound setup { w with answers := (report, response) :: w.answers } := by
  refine sound.of_store (List.append_nil _).symm (by simp) (fun _ _ _ => .inl)
    (fun _ _ _ => .inl) sound.handlers (List.forall_mem_cons.mpr ⟨?_, sound.answers⟩)
  change AnswerSound setup w report response
  obtain ⟨zero, status⟩ := Report.recorded_of_accept refused
  refine ⟨member, fun ok => by omega, by simp [zero], fun _ => ⟨zero, ?_⟩⟩
  intro queued single
  have reportSound := sound.reports report member
  refine Report.not_accepted_of_accept refused single ?_ ?_
  · exact (reportSound.batch queued (by simp [single])).2
  · exact reportSound.loss.resolve_right fun loss => by simp [single] at loss

theorem Sound.accept {batch : DecisionBatch} (member : report ∈ w.sent)
    (admitted : report.accept setup.codec = .ok batch) :
    Sound setup { w with handlers := Handler.start report batch :: w.handlers } := by
  refine sound.of_store (List.append_nil _).symm (by simp) (fun _ _ _ => .inl)
    (fun _ _ _ => .inl) (List.forall_mem_cons.mpr ⟨?_, sound.handlers⟩) sound.answers
  obtain ⟨-, decoded, -⟩ := Report.admit_eq_ok.mp admitted
  obtain ⟨-, -, -, dropped, -⟩ := Report.decode_eq_some decoded
  refine ⟨member, admitted, by simp [Handler.start], ?_, ?_⟩
  · intro loss
    simp only [Handler.start, decide_eq_true_eq, dropped] at loss
    refine ⟨rfl, ?_⟩
    intro none
    change report.droppedIDs = [] at none
    simp [none] at loss
  · intro noLoss id listed
    simp only [Handler.start, decide_eq_false_iff_not, dropped] at noLoss
    have some := List.length_pos_of_mem listed
    exact absurd (by exact_mod_cast some) noLoss

theorem Sound.forbid (call : Call) (member : report ∈ w.sent) :
    Sound setup
      { w with
        store := (appendAudit setup.sha256 w.store call (denyDraft setup.agent)).1
        answers := (report, ⟨403, 0⟩) :: w.answers
        clock := call.now } := by
  have once := @appendAudit_auditOnce σ setup.sha256 w.store call (denyDraft setup.agent)
  obtain ⟨new, rows, empty⟩ := deny_effect setup w.store call
  refine sound.of_store rows ?_ (fun _ _ _ found => .inl (once ▸ found))
    (fun _ _ _ found => .inl (once ▸ found)) (sound.handlers_mono (.of_rows rfl rows))
    (List.forall_mem_cons.mpr
      ⟨⟨member, by simp, by simp, by simp⟩, sound.answers_mono (.of_rows rfl rows)⟩)
  intro ev present queued made draft drafted carries
  exact absurd (empty ev present) ((sound.queue.genuine made).payload_ne drafted carries)

theorem Sound.others (others : Others setup.agent now w.store store) :
    Sound setup { w with store := store, clock := now } := by
  obtain ⟨new, rows, foreign⟩ := others.rows
  refine sound.of_store rows ?_ ?_ ?_
    (sound.handlers_mono (.of_rows rfl rows))
    (sound.answers_mono (.of_rows rfl rows))
  · intro ev member queued made draft drafted carries
    obtain ⟨kind, actor, -⟩ := Queued.draft_row (sound.queue.genuine made) drafted carries
    rcases foreign ev member with elsewhere | elsewhere
    · exact absurd actor elsewhere
    · exact absurd kind elsewhere
  · exact fun queued made row found => .inl (others.found _ row (by simp [decisionKey]) found)
  · exact fun loss drawn row found => .inl (others.found _ row (by simp [lossKey]) found)

end

/-! ## Every step -/

theorem Sound.step (sound : Sound setup w) (step : Step setup timed w w') : Sound setup w' := by
  cases step with
  | load | stamp | notModified | undecided => exact sound.of_agent rfl rfl rfl
  | begin | drained | lose | finish => exact sound.of_flusher (by simp)
  | reserve call pdp held =>
    obtain rfl := PDP.reserve_eq_ok held
    exact sound.of_agent rfl rfl rfl
  | decide before call after response queued waiting decided fresh =>
    exact sound.decide decided fresh
  | send report looping reported => exact sound.send reported
  | receive report response handling waiting received fresh =>
    refine sound.receive waiting received fresh ?_ (w.pdp.respond_handled _ report response handling)
    intro other
    split <;> simp
  | forbid report call recorders member => exact sound.forbid call member
  | reject report response recorders member authorized refused => exact sound.reject member refused
  | accept report batch recorders member authorized admitted => exact sound.accept member admitted
  | append before handler after key draft call running next => exact sound.append call running next
  | complete before handler after response running next => exact sound.complete running next
  | others store now others => exact sound.others others

theorem Step.grows (step : Step setup timed w w') : Grows w w' := by
  cases step with
  | send => exact ⟨fun _ => List.mem_cons_of_mem _, fun _ => id⟩
  | forbid report call =>
    obtain ⟨new, rows, -⟩ := deny_effect setup w.store call
    exact .of_rows rfl rows
  | append before handler after key draft call =>
    obtain ⟨new, effect⟩ := appendAuditOnce_effect setup.sha256 w.store call key draft
    exact .of_rows rfl effect.rows
  | others store now others =>
    obtain ⟨new, rows, -⟩ := others.rows
    exact .of_rows rfl rows
  | _ => exact ⟨fun _ => id, fun _ => id⟩

theorem Sound.unspooled (sound : Sound setup w) {before after : List Queued}
    (waiting : w.decided = before ++ queued :: after) :
    Sound setup { w with pdp := w.pdp.release, decided := before ++ after } := by
  refine sound.of_queue List.prefix_rfl sound.queue.pending ?_ rfl rfl
  intro other member
  rw [waiting]
  simp only [List.mem_append, List.mem_cons] at member ⊢
  tauto

theorem Sound.ending (sound : Sound setup w) (ending : Ending setup w w') : Sound setup w' := by
  cases ending with
  | answer before queued after waiting =>
    refine sound.of_queue (List.prefix_append _ _) ?_ ?_ rfl rfl
    · intro other member
      rcases List.mem_append.mp member with old | last
      · exact sound.queue.pending other old
      · rw [List.mem_singleton.mp last]
        exact sound.queue.decided queued (by simp [waiting])
    · intro other member
      rw [waiting]
      simp only [List.mem_append, List.mem_cons] at member ⊢
      tauto
  | unspooled before queued after waiting => exact sound.unspooled waiting

end OmegaPlane.Agent
