import OmegaPlane.Agent.Freshness
import OmegaPlane.Agent.Invariant
import OmegaPlane.Data.JsonDecode

/-!
# Every decision is accounted for

While the agent does not crash, a decision that was answered is pending, or was
taken off the queue when it was on the chain, or was dropped and is reported as
lost; never two of these.
-/

namespace OmegaPlane.Agent

open Audit Storage Decision

variable {σ : Type} {setup : Setup}

/-- The worlds an agent and its control plane reach without a crash. -/
inductive Reaches (setup : Setup) (store : Store σ) : World σ → Prop where
  | start (clock : Int) : Reaches setup store (World.start store clock)
  | step {w w' : World σ} (reaches : Reaches setup store w) (step : Step setup false w w') :
      Reaches setup store w'
  | ending {w w' : World σ} (reaches : Reaches setup store w) (ending : Ending setup w w') :
      Reaches setup store w'

variable {store : Store σ} {w : World σ}

theorem Reaches.sound (reaches : Reaches setup store w) : Sound setup w := by
  induction reaches with
  | start clock => exact .start store clock
  | step reaches step ih => exact ih.step step
  | ending reaches ending ih => exact ih.ending ending

/-- The decision was taken off the queue and is on the chain. -/
def World.Shipped (setup : Setup) (w : World σ) (queued : Queued) : Prop :=
  queued ∉ w.pdp.pending ∧ queued.Recorded setup w.rows

/-- The decision waits to be reported as lost, or was. -/
def World.Dropped (setup : Setup) (w : World σ) (queued : Queued) : Prop :=
  queued.id ∈ w.pdp.droppedIDs ∨ w.LossRecorded setup queued.id

/-- A row that records a decision of the agent. -/
def RecordsDecision (setup : Setup) (ev : AuditEvent) : Prop :=
  ev.kind = localDecisionKind ∧ ev.actor = setup.agent ∧ ev.payload ≠ ascii "\x7b\x7d"

/-- The row carries a decision that was answered. -/
def World.Answers (setup : Setup) (w : World σ) (ev : AuditEvent) : Prop :=
  ∃ queued ∈ w.answered, ∃ draft, queued.draft setup.codec setup.agent = some draft ∧
    Carries draft ev

/-- What holds besides `Sound` while the agent does not crash; `initial` are the
rows it found. -/
structure Accounted (setup : Setup) (initial : List AuditEvent) (w : World σ) : Prop where
  answered : ∀ queued ∈ w.answered, queued ∈ w.made
  distinct : (w.decided ++ w.answered).Nodup
  pendingDistinct : w.pdp.pending.Nodup
  pending : ∀ queued ∈ w.pdp.pending, queued ∈ w.answered
  sent : ∀ report ∈ w.sent, ∀ queued ∈ report.batch, queued ∈ w.answered
  accounted : ∀ queued ∈ w.answered,
    queued ∈ w.pdp.pending ∨ queued.Recorded setup w.rows ∨ w.Dropped setup queued
  lost : ∀ loss ∈ w.losses, ∃ queued ∈ w.answered, queued.id = loss.2 ∧
    queued ∉ w.pdp.pending ∧ ¬ queued.Accepted setup.codec
  rows : ∀ ev ∈ w.rows, RecordsDecision setup ev → ev ∈ initial ∨ w.Answers setup ev

theorem Accounted.start (store : Store σ) (clock : Int) :
    Accounted setup store.db.auditLog.rows (World.start store clock) where
  answered := by simp
  distinct := List.nodup_nil
  pendingDistinct := List.nodup_nil
  pending := by simp [PDP.new]
  sent := by simp
  accounted := by simp
  lost := by simp
  rows := fun ev member _ => .inl member

/-! ## Steps -/

variable {w' : World σ} {queued : Queued}

theorem World.Dropped.mono (dropped : w.Dropped setup queued)
    (droppedIDs : w'.pdp.droppedIDs = w.pdp.droppedIDs) (grows : Grows w w') :
    w'.Dropped setup queued := by
  rcases dropped with waiting | reported
  · exact .inl (droppedIDs ▸ waiting)
  · exact .inr (reported.mono grows)

variable {initial : List AuditEvent}

/-- Steps that leave the queue and the losses alone. -/
theorem Accounted.of_grows (accounted : Accounted setup initial w) (made : w'.made = w.made)
    (decided : w'.decided = w.decided) (answered : w'.answered = w.answered)
    (pending : w'.pdp.pending = w.pdp.pending) (droppedIDs : w'.pdp.droppedIDs = w.pdp.droppedIDs)
    (losses : w'.losses = w.losses) (grows : Grows w w')
    (sent : ∀ report ∈ w'.sent, ∀ queued ∈ report.batch, queued ∈ w.answered)
    (rows : ∀ ev ∈ w'.rows, RecordsDecision setup ev → ev ∈ w.rows ∨ w.Answers setup ev) :
    Accounted setup initial w' where
  answered := by
    rw [answered, made]
    exact accounted.answered
  distinct := by
    rw [decided, answered]
    exact accounted.distinct
  pendingDistinct := pending ▸ accounted.pendingDistinct
  pending := by
    rw [pending, answered]
    exact accounted.pending
  sent := by
    rw [answered]
    exact sent
  accounted := by
    rw [answered, pending]
    intro queued member
    rcases accounted.accounted queued member with waiting | recorded | dropped
    · exact .inl waiting
    · exact .inr (.inl (recorded.mono grows.rows))
    · exact .inr (.inr (dropped.mono droppedIDs grows))
  lost := by
    rw [losses, answered, pending]
    exact accounted.lost
  rows := by
    intro ev member records
    have answers : w'.Answers setup ev ↔ w.Answers setup ev := by
      rw [World.Answers, World.Answers, answered]
    rw [answers]
    rcases rows ev member records with old | new
    · exact accounted.rows ev old records
    · exact .inr new

/-- Rows that record no decision of the agent. -/
theorem Accounted.of_foreign (accounted : Accounted setup initial w) (made : w'.made = w.made)
    (decided : w'.decided = w.decided) (answered : w'.answered = w.answered)
    (pending : w'.pdp.pending = w.pdp.pending) (droppedIDs : w'.pdp.droppedIDs = w.pdp.droppedIDs)
    (losses : w'.losses = w.losses) (sent : w'.sent = w.sent) {new : List AuditEvent}
    (rows : w'.rows = w.rows ++ new)
    (foreign : ∀ ev ∈ new, RecordsDecision setup ev → w.Answers setup ev) :
    Accounted setup initial w' := by
  refine accounted.of_grows made decided answered pending droppedIDs losses
    (.of_rows sent rows) ?_ ?_
  · rw [sent]
    exact accounted.sent
  · intro ev member records
    rw [rows] at member
    rcases List.mem_append.mp member with old | fresh
    · exact .inl old
    · exact .inr (foreign ev fresh records)

/-- Steps of the agent that leave the queue and the losses alone. -/
theorem Accounted.of_agent (accounted : Accounted setup initial w) (made : w'.made = w.made)
    (decided : w'.decided = w.decided) (answered : w'.answered = w.answered)
    (pending : w'.pdp.pending = w.pdp.pending) (droppedIDs : w'.pdp.droppedIDs = w.pdp.droppedIDs)
    (losses : w'.losses = w.losses) (sent : w'.sent = w.sent) (rows : w'.rows = w.rows) :
    Accounted setup initial w' :=
  accounted.of_foreign made decided answered pending droppedIDs losses sent
    (rows.trans (List.append_nil _).symm) (by simp)

theorem Accounted.decide (sound : Sound setup w) (accounted : Accounted setup initial w)
    {deciding : List EvalCall} (fresh : w.Fresh setup queued.id) :
    Accounted setup initial
      { w with
        deciding := deciding, decided := queued :: w.decided, made := queued :: w.made } := by
  have unknown : queued ∉ w.made := fun member => fresh.1 queued member rfl
  refine ⟨?_, ?_, accounted.pendingDistinct, accounted.pending, accounted.sent, ?_,
    accounted.lost, accounted.rows⟩
  · exact fun other member => List.mem_cons_of_mem _ (accounted.answered other member)
  · rw [List.cons_append, List.nodup_cons]
    refine ⟨?_, accounted.distinct⟩
    intro member
    rcases List.mem_append.mp member with waiting | done
    · exact unknown (sound.queue.decided queued waiting)
    · exact unknown (accounted.answered queued done)
  · intro other member
    rcases accounted.accounted other member with waiting | recorded | dropped
    · exact .inl waiting
    · exact .inr (.inl recorded)
    · exact .inr (.inr (dropped.mono rfl ⟨fun _ => id, fun _ => id⟩))

variable {report : Report}

theorem Accounted.send (accounted : Accounted setup initial w)
    (reported : w.pdp.report = some report) :
    Accounted setup initial { w with flusher := .waiting report, sent := report :: w.sent } := by
  refine accounted.of_grows rfl rfl rfl rfl rfl rfl
    ⟨fun _ => List.mem_cons_of_mem _, fun _ => id⟩ ?_ (fun ev member _ => .inl member)
  refine List.forall_mem_cons.mpr ⟨?_, accounted.sent⟩
  intro queued member
  exact accounted.pending queued ((PDP.reports_of_report reported).batch.subset member)

theorem Accounted.receive (sound : Sound setup w) (accounted : Accounted setup initial w)
    {response : Response} {handling : Handling} {flusher : Flusher} {after : PDP}
    (waiting : w.flusher = .waiting report) (received : w.Received report response)
    (handled : Handled w.pdp report response handling after) :
    Accounted setup initial
      { w with
        pdp := after
        flusher := flusher
        losses := ((after.droppedIDs.drop w.pdp.droppedIDs.length).map fun id =>
          (after.lossID, id)) ++ w.losses } := by
  obtain ⟨-, reports⟩ := sound.waiting report waiting
  have told := sound.received received
  -- a loss that was known stays one when the queue gets shorter
  have stillLost : (∀ queued ∈ after.pending, queued ∈ w.pdp.pending) →
      ∀ loss ∈ w.losses, ∃ queued ∈ w.answered, queued.id = loss.2 ∧
        queued ∉ after.pending ∧ ¬ queued.Accepted setup.codec := by
    intro shorter loss drawn
    obtain ⟨queued, member, same, away, refused⟩ := accounted.lost loss drawn
    exact ⟨queued, member, same, fun here => away (shorter queued here), refused⟩
  cases handled with
  | accepted status pending droppedIDs =>
    rw [reports.droppedIDs, List.drop_length] at droppedIDs
    have shorter : ∀ queued ∈ after.pending, queued ∈ w.pdp.pending := fun queued member =>
      List.mem_of_mem_drop (pending ▸ member)
    rw [droppedIDs, List.drop_nil, List.map_nil, List.nil_append]
    refine ⟨accounted.answered, accounted.distinct, ?_,
      fun queued member => accounted.pending queued (shorter queued member), accounted.sent, ?_,
      stillLost shorter, accounted.rows⟩
    · exact pending ▸ accounted.pendingDistinct.sublist (List.drop_sublist _ _)
    intro queued member
    rcases accounted.accounted queued member with here | recorded | dropped
    · rcases mem_drop_or_mem_take reports.batch le_rfl here with shipped | later
      · rw [List.take_length] at shipped
        exact .inr (.inl ((told.all status).1 queued shipped))
      · exact .inl (pending ▸ later)
    · exact .inr (.inl recorded)
    · refine .inr (.inr (.inr ?_))
      rcases dropped with listed | reported
      · exact ((told.all status).2 queued.id (reports.droppedIDs ▸ listed)).mono
          ⟨fun _ => id, fun _ => id⟩
      · exact reported.mono ⟨fun _ => id, fun _ => id⟩
  | kept status pending droppedIDs =>
    have shorter : ∀ queued ∈ after.pending, queued ∈ w.pdp.pending := fun queued member =>
      List.mem_of_mem_drop (pending ▸ member)
    rw [droppedIDs, List.drop_length, List.map_nil, List.nil_append]
    refine ⟨accounted.answered, accounted.distinct, ?_,
      fun queued member => accounted.pending queued (shorter queued member), accounted.sent, ?_,
      stillLost shorter, accounted.rows⟩
    · exact pending ▸ accounted.pendingDistinct.sublist (List.drop_sublist _ _)
    intro queued member
    obtain ⟨counted, within⟩ := report.partly_le response
    rcases accounted.accounted queued member with here | recorded | dropped
    · rcases mem_drop_or_mem_take reports.batch within here with shipped | later
      · refine .inr (.inl (told.partly queued ?_))
        exact (List.take_prefix_take_left counted).subset shipped
      · exact .inl (pending ▸ later)
    · exact .inr (.inl recorded)
    · exact .inr (.inr (dropped.mono droppedIDs ⟨fun _ => id, fun _ => id⟩))
  | dropped first status some left pending droppedIDs =>
    obtain ⟨queue, single, none, unset, refused⟩ :=
      sound.dropped_first waiting received status some left pending
    rw [none, List.nil_append] at droppedIDs
    have shorter : ∀ queued ∈ after.pending, queued ∈ w.pdp.pending := fun queued member =>
      queue ▸ List.mem_cons_of_mem first member
    have distinct := accounted.pendingDistinct
    rw [queue, List.nodup_cons] at distinct
    refine ⟨accounted.answered, accounted.distinct, distinct.2,
      fun queued member => accounted.pending queued (shorter queued member), accounted.sent, ?_,
      ?_, accounted.rows⟩
    · intro queued member
      rcases accounted.accounted queued member with here | recorded | dropped
      · rw [queue] at here
        rcases List.mem_cons.mp here with rfl | later
        · exact .inr (.inr (.inl (by simp [droppedIDs])))
        · exact .inl later
      · exact .inr (.inl recorded)
      · rcases dropped with listed | reported
        · simp [none] at listed
        · exact .inr (.inr (.inr (reported.mono ⟨fun _ => id, fun _ => id⟩)))
    · intro loss member
      rcases List.mem_append.mp member with drawn | known
      · rw [droppedIDs, none] at drawn
        simp only [List.length_nil, List.drop_zero, List.map_cons, List.map_nil,
          List.mem_singleton] at drawn
        rw [drawn]
        exact ⟨first, accounted.pending first (by simp [queue]), rfl, distinct.1, refused⟩
      · exact stillLost shorter loss known

theorem Accounted.forbid (accounted : Accounted setup initial w) (report : Report) (call : Call) :
    Accounted setup initial
      { w with
        store := (appendAudit setup.sha256 w.store call (denyDraft setup.agent)).1
        answers := (report, ⟨403, 0⟩) :: w.answers
        clock := call.now } := by
  obtain ⟨new, rows, empty⟩ := deny_effect setup w.store call
  refine accounted.of_foreign rfl rfl rfl rfl rfl rfl rfl rows ?_
  rintro ev member ⟨-, -, content⟩
  exact absurd (empty ev member) content

theorem Accounted.append (sound : Sound setup w) (accounted : Accounted setup initial w)
    {before after : List Handler} {handler : Handler} {key : Bytes} {draft : AuditDraft}
    (call : Call) (running : w.handlers = before ++ handler :: after)
    (next : handler.next setup.codec setup.agent = .inr (key, draft)) :
    Accounted setup initial (w.append setup before handler after key draft call) := by
  have handlerSound := sound.handlers handler (by simp [running])
  obtain ⟨new, effect⟩ := appendAuditOnce_effect setup.sha256 w.store call key draft
  refine accounted.of_foreign rfl rfl rfl rfl rfl rfl rfl effect.rows ?_
  rintro ev member ⟨kind, -, -⟩
  cases sound.nextAppend handlerSound next with
  | loss pending keyEq draftEq =>
    subst draftEq
    rcases effect.carried ev member with carried | conflict
    · exact absurd (carried.1.symm.trans kind) (localDecisionKind_ne_append (by decide))
    · refine absurd (conflict.symm.trans kind) ?_
      simp only [lossDraft, List.append_assoc]
      exact localDecisionKind_ne_append (by decide)
  | decision queued noLoss made here keyEq drafted =>
    rcases effect.carried ev member with carried | conflict
    · exact ⟨queued, accounted.sent _ handlerSound.sent queued (List.mem_of_getElem? here),
        draft, drafted, carried⟩
    · obtain ⟨d, payload, -, -, rfl⟩ := Queued.draft_eq_some.mp drafted
      exact absurd (conflict.symm.trans kind) (localDecisionKind_ne_append (by decide))

theorem Accounted.others (accounted : Accounted setup initial w) {now : Int}
    (others : Others setup.agent now w.store store) :
    Accounted setup initial { w with store := store, clock := now } := by
  obtain ⟨new, rows, foreign⟩ := others.rows
  refine accounted.of_foreign rfl rfl rfl rfl rfl rfl rfl rows ?_
  rintro ev member ⟨kind, actor, -⟩
  rcases foreign ev member with elsewhere | elsewhere
  · exact absurd actor elsewhere
  · exact absurd kind elsewhere

theorem Accounted.step (sound : Sound setup w) (accounted : Accounted setup initial w)
    {timed : Bool} (step : Step setup timed w w') :
    Accounted setup initial w' := by
  cases step with
  | reserve call pdp held =>
    obtain rfl := PDP.reserve_eq_ok held
    exact accounted.of_agent rfl rfl rfl rfl rfl rfl rfl rfl
  | decide before call after response queued waiting decided fresh =>
    exact accounted.decide sound fresh
  | send report looping reported => exact accounted.send reported
  | receive report response handling waiting received =>
    exact accounted.receive sound waiting received
      (w.pdp.respond_handled _ report response handling)
  | forbid report call => exact accounted.forbid report call
  | append before handler after key draft call running next =>
    exact accounted.append sound call running next
  | others store now others => exact accounted.others others
  | _ => exact accounted.of_agent rfl rfl rfl rfl rfl rfl rfl rfl

theorem Accounted.answer (sound : Sound setup w) (accounted : Accounted setup initial w)
    {before after : List Queued} (waiting : w.decided = before ++ queued :: after) :
    Accounted setup initial
      { w with
        pdp := w.pdp.enqueue queued
        decided := before ++ after
        answered := queued :: w.answered } := by
  have reordered : (before ++ after ++ queued :: w.answered).Perm (w.decided ++ w.answered) := by
    rw [waiting, List.append_assoc, List.append_assoc, List.cons_append]
    exact (List.perm_middle).append_left before
  have distinct := reordered.nodup_iff.mpr accounted.distinct
  have unanswered : queued ∉ w.answered :=
    (List.nodup_cons.mp (List.Nodup.of_append_right distinct)).1
  refine ⟨?_, distinct, ?_, ?_, ?_, ?_, ?_, ?_⟩
  · exact List.forall_mem_cons.mpr
      ⟨sound.queue.decided queued (by simp [waiting]), accounted.answered⟩
  · refine List.Nodup.append accounted.pendingDistinct (List.nodup_singleton queued) ?_
    rw [List.disjoint_singleton]
    exact fun member => unanswered (accounted.pending queued member)
  · intro other member
    rcases List.mem_append.mp member with old | last
    · exact List.mem_cons_of_mem _ (accounted.pending other old)
    · rw [List.mem_singleton.mp last]
      exact List.mem_cons_self
  · exact fun report member other inside =>
      List.mem_cons_of_mem _ (accounted.sent report member other inside)
  · refine List.forall_mem_cons.mpr ⟨.inl (List.mem_append_right _ (by simp)), ?_⟩
    intro other member
    rcases accounted.accounted other member with here | recorded | dropped
    · exact .inl (List.mem_append_left _ here)
    · exact .inr (.inl recorded)
    · exact .inr (.inr (dropped.mono rfl ⟨fun _ => id, fun _ => id⟩))
  · intro loss drawn
    obtain ⟨other, member, same, away, refused⟩ := accounted.lost loss drawn
    refine ⟨other, List.mem_cons_of_mem _ member, same, ?_, refused⟩
    intro here
    rcases List.mem_append.mp here with old | last
    · exact away old
    · rw [List.mem_singleton.mp last] at member
      exact unanswered member
  · intro ev member records
    rcases accounted.rows ev member records with old | ⟨other, known, carried⟩
    · exact .inl old
    · exact .inr ⟨other, List.mem_cons_of_mem _ known, carried⟩

theorem Accounted.unspooled (accounted : Accounted setup initial w) {before after : List Queued}
    (waiting : w.decided = before ++ queued :: after) :
    Accounted setup initial { w with pdp := w.pdp.release, decided := before ++ after } := by
  refine ⟨accounted.answered, ?_, accounted.pendingDistinct, accounted.pending, accounted.sent, ?_,
    accounted.lost, accounted.rows⟩
  · refine accounted.distinct.sublist ?_
    rw [waiting]
    exact ((List.sublist_cons_self queued after).append_left before).append_right w.answered
  · intro other member
    rcases accounted.accounted other member with here | recorded | dropped
    · exact .inl here
    · exact .inr (.inl recorded)
    · exact .inr (.inr (dropped.mono rfl ⟨fun _ => id, fun _ => id⟩))

theorem Reaches.accounted (reaches : Reaches setup store w) :
    Accounted setup store.db.auditLog.rows w := by
  induction reaches with
  | start clock => exact .start store clock
  | step reaches step ih => exact ih.step reaches.sound step
  | ending reaches ending ih =>
    cases ending with
    | answer before queued after waiting => exact ih.answer reaches.sound waiting
    | unspooled before queued after waiting => exact ih.unspooled waiting

/-! ## Exactly one of three -/

/-- One of three statements holds and no two of them do. -/
def ExactlyOne (first second third : Prop) : Prop :=
  (first ∨ second ∨ third) ∧ ¬(first ∧ second) ∧ ¬(first ∧ third) ∧ ¬(second ∧ third)

/-- A loss is known by the id drawn for it. -/
theorem Sound.mem_losses_of_dropped (sound : Sound setup w) (dropped : w.Dropped setup queued) :
    ∃ lossID, (lossID, queued.id) ∈ w.losses := by
  rcases dropped with listed | ⟨report, sent, listed, -⟩
  · rcases sound.lost with ⟨none, -⟩ | ⟨id, single, drawn⟩
    · simp [none] at listed
    · rw [single, List.mem_singleton] at listed
      exact ⟨_, listed ▸ drawn⟩
  · rcases (sound.reports report sent).loss with none | ⟨-, id, single, drawn⟩
    · simp [none] at listed
    · rw [single, List.mem_singleton] at listed
      exact ⟨_, listed ▸ drawn⟩

/-- A dropped decision is off the queue and was never accepted. -/
theorem Accounted.of_dropped (sound : Sound setup w) (accounted : Accounted setup initial w)
    (member : queued ∈ w.answered) (dropped : w.Dropped setup queued) :
    queued ∉ w.pdp.pending ∧ ¬ queued.Accepted setup.codec := by
  obtain ⟨lossID, drawn⟩ := sound.mem_losses_of_dropped dropped
  obtain ⟨other, known, same, away, refused⟩ := accounted.lost _ drawn
  rw [sound.queue.eq_of_id (accounted.answered queued member) (accounted.answered other known)
    same.symm]
  exact ⟨away, refused⟩

/-- Every decision that was answered is in exactly one place, and every row that
records a decision of the agent carries one that was answered, under the revision
it was decided with. -/
theorem exactlyOne_of_reaches {store : Store σ} {w : World σ} (reaches : Reaches setup store w) :
    w.pdp.pending.Nodup ∧
      (∀ queued ∈ w.answered, ExactlyOne (queued ∈ w.pdp.pending) (w.Shipped setup queued)
        (w.Dropped setup queued)) ∧
      (∀ queued ∈ w.answered, ∃ call bundle response,
        queued.DecidedWith setup call bundle response ∧ queued.revision = bundle.revision) ∧
      ∀ ev ∈ w.rows, RecordsDecision setup ev →
        ev ∈ store.db.auditLog.rows ∨ w.Answers setup ev := by
  have sound := reaches.sound
  have accounted := reaches.accounted
  refine ⟨accounted.pendingDistinct, ?_, ?_, accounted.rows⟩
  · intro queued member
    refine ⟨?_, fun both => both.2.1 both.1, ?_, ?_⟩
    · by_cases here : queued ∈ w.pdp.pending
      · exact .inl here
      · rcases accounted.accounted queued member with waiting | recorded | dropped
        · exact absurd waiting here
        · exact .inr (.inl ⟨here, recorded⟩)
        · exact .inr (.inr dropped)
    · rintro ⟨here, dropped⟩
      exact (accounted.of_dropped sound member dropped).1 here
    · rintro ⟨⟨-, recorded⟩, dropped⟩
      exact (accounted.of_dropped sound member dropped).2
        (sound.chain.accepted queued (accounted.answered queued member) recorded)
  · intro queued member
    obtain ⟨call, bundle, response, decided⟩ :=
      sound.queue.decidedWith queued (accounted.answered queued member)
    exact ⟨call, bundle, response, decided, decided.revision⟩

/-! An agent that synced and answered one decision; the encodings keep the id,
and the agent's the context of the request as well. -/

mutual

/-- A value as it is written, with whole numbers. -/
def sampleValue : Value → Json
  | .null => .null
  | .bool value => .bool value
  | .number value => .int value.num
  | .str text => .str text
  | .arr items => .arr (sampleValues items)
  | .obj fields => .obj (sampleFields fields)

def sampleValues : List Value → List Json
  | [] => []
  | value :: rest => sampleValue value :: sampleValues rest

def sampleFields : List (Bytes × Value) → List (Bytes × Json)
  | [] => []
  | (name, value) :: rest => (name, sampleValue value) :: sampleFields rest

end

def sampleText (d : LocalDecision) : Bytes :=
  Json.encode (.obj [(ascii "id", .str d.id),
    (ascii "request", .obj [(ascii "context", .obj (sampleFields d.request.context))])])

def sampleDecode (raw : Bytes) : Option LocalDecision :=
  (Json.unquote 0 (raw.drop 7)).map fun decoded =>
    { id := decoded.1
      decidedAt := 0
      request := (sampleCall 0).request
      response := { decision := true, context := none, reasons := [] } }

theorem sampleDecode_sampleText (d : LocalDecision) :
    (sampleDecode (sampleText d)).map (·.id) = some (Utf8.scrub d.id) := by
  have name : Json.quoteFrom 0 (ascii "id") = [105, 100] := by decide
  have colon : ascii ":" = [58] := by decide
  simp only [sampleDecode, sampleText, Json.encode, Json.encodeFields, Json.quote, name, colon,
    List.append_assoc, List.cons_append, List.nil_append, List.drop_succ_cons, List.drop_zero]
  rw [Json.unquote_quote]
  rfl

def sampleCodec : Codec where
  marshal d := some (sampleText d)
  decode := sampleDecode
  encode fields := ascii "decision " ++ Utf8.scrub fields.decisionID
  marshal_object := by
    intro d raw written
    cases written
    exact ⟨⟨_, rfl⟩, Json.feed_notMem_encode _⟩
  decode_id := by
    intro d d' raw random drawn written read
    cases written
    have id := sampleDecode_sampleText d
    rw [read, drawn, scrub_newID, ← drawn] at id
    exact Option.some.inj id
  encode_id := by
    intro fields fields' same
    exact List.append_cancel_left same
  encode_ne := by
    intro fields same
    have first := congrArg List.head? same
    revert first
    simp [show ascii "decision " = [100, 101, 99, 105, 115, 105, 111, 110, 32] by decide,
      show ascii "\x7b\x7d" = [123, 125] by decide]

def sampleSetup : Setup where
  sha256 := Crypto.Sha256.sum
  codec := sampleCodec
  policy := samplePolicy
  config := sampleConfig
  agent := nodeAgent

def sampleStore : Store Unit :=
  .opened .sqlite () ⟨false, false⟩ none

def sampleQueued : Queued :=
  ⟨newID [1], sampleText ((sampleCall 0).decision { decision := true, context := none, reasons := [] }),
    sampleBundle.revision⟩

/-- The agent after one decision. -/
def sampleWorld : World Unit :=
  { World.start sampleStore 0 with
    pdp :=
      { (PDP.new.loadBundle sampleBundle).stamp sampleBundle 0 0 with
        pending := [sampleQueued] }
    made := [sampleQueued]
    answered := [sampleQueued] }

theorem sampleWorld_reaches : Reaches sampleSetup sampleStore sampleWorld := by
  have started : Reaches sampleSetup sampleStore (World.start sampleStore 0) := .start 0
  have loaded := started.step (.load sampleBundle (.still 0) rfl
    (by decide +kernel) (by decide +kernel) rfl)
  have stamped := loaded.step (.stamp sampleBundle 0 0 rfl)
  have reserved := stamped.step (.reserve (sampleCall 0) _ rfl)
  have decided := reserved.step (.decide [] (sampleCall 0) []
    { decision := true, context := none, reasons := [] } sampleQueued rfl rfl
    ⟨by simp, rfl, fun _ member => absurd member List.not_mem_nil⟩)
  exact decided.ending (.answer [] sampleQueued [] rfl)

theorem exactlyOne_of_reaches_sample :
    ExactlyOne (sampleQueued ∈ sampleWorld.pdp.pending) (sampleWorld.Shipped sampleSetup sampleQueued)
      (sampleWorld.Dropped sampleSetup sampleQueued) :=
  (exactlyOne_of_reaches sampleWorld_reaches).2.1 sampleQueued (List.mem_singleton_self _)

end OmegaPlane.Agent
