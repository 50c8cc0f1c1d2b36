import OmegaPlane.Agent.Accounting
import OmegaPlane.Agent.ExactlyOnce

/-!
# Recovery from the spool

An agent that restarts has every answered decision again that is neither on the
chain nor rejected, and a flush that meets no failure brings each of them to the
chain.
-/

namespace OmegaPlane.Agent

open Audit Storage Decision Relation

variable {σ : Type} {setup : Setup}

/-! ## A report that is accepted -/

/-- A decision the control plane can record: it is accepted and encoded, and the
revision is no longer than a hash in hex. -/
structure Shippable (setup : Setup) (queued : Queued) : Prop where
  accepted : queued.Accepted setup.codec
  drafted : (queued.draft setup.codec setup.agent).isSome
  revision : queued.revision.length ≤ 64

variable {report : Report} {queued first : Queued} {rest : List Queued}

theorem Report.body_of_single (single : report.batch = [queued])
    (revision : queued.revision = report.revision) (noLoss : report.droppedIDs = []) :
    report.body = queued.alone.body := by
  simp [Report.body, Report.lossFields, Queued.alone, single, noLoss, revision]

/-- A body is its decisions and at most half a kilobyte. -/
theorem Report.length_body_le (short : report.revision.length ≤ 64)
    (noLoss : report.droppedIDs = []) :
    report.body.length ≤ 512 + batchBytes report.batch := by
  have quoted := Json.length_quote_le report.revision
  have joined := length_joinRaw_le report.batch
  simp only [Report.body, Report.lossFields, noLoss, if_true, List.length_append, List.length_nil,
    show (ascii "\x7b\"bundle_revision\":").length = 19 by decide,
    show (ascii ",\"decisions\":[").length = 14 by decide, show (ascii "]").length = 1 by decide,
    show (ascii "\x7d").length = 1 by decide]
  omega

/-- The report of an uncapped queue without losses. -/
theorem PDP.report_of_noLoss {pdp : PDP} (pending : pdp.pending = first :: rest)
    (noLoss : pdp.droppedIDs = []) (uncapped : pdp.batchCap = 0) :
    ∃ report, pdp.report = some report ∧ report.droppedIDs = [] ∧
      report.revision = first.revision ∧
      report.batch = first :: takeBatch first.revision (maxBatchDecisions - 1)
        (first.raw.length + 1) rest := by
  unfold PDP.report
  rw [if_neg (by simp [pending])]
  refine ⟨_, rfl, noLoss, by simp [pending], ?_⟩
  simp [pending, noLoss, uncapped, maxBatchDecisions]

/-- The report fits into a body. -/
theorem fits_of_shippable
    (batch : report.batch = first :: takeBatch first.revision (maxBatchDecisions - 1)
      (first.raw.length + 1) rest) (revision : report.revision = first.revision)
    (noLoss : report.droppedIDs = []) (shippable : Shippable setup first) :
    report.body.length ≤ maxJSONBodyBytes := by
  by_cases single : takeBatch first.revision (maxBatchDecisions - 1) (first.raw.length + 1) rest = []
  · rw [single] at batch
    rw [Report.body_of_single batch revision.symm noLoss]
    exact shippable.accepted.1
  · have bytes := takeBatch_fits (by omega) single
    have body := Report.length_body_le (revision ▸ shippable.revision) noLoss
    rw [batch] at body
    simp only [batchBytes, List.map_cons, List.sum_cons] at body bytes
    simp only [maxBatchBytes, maxJSONBodyBytes] at bytes ⊢
    omega

theorem admit_of_shippable (fits : report.body.length ≤ maxJSONBodyBytes) (some : report.batch ≠ [])
    (few : report.batch.length ≤ maxDecisionBatch) (noLoss : report.droppedIDs = [])
    (shippable : ∀ queued ∈ report.batch, Shippable setup queued) :
    ∃ batch, report.accept setup.codec = .ok batch ∧ batch.dropped = 0 := by
  have readable : ∀ queued ∈ report.batch, ∃ d, setup.codec.decode queued.raw = .some d := by
    intro queued member
    obtain ⟨-, d, read, -⟩ := (shippable queued member).accepted
    exact ⟨d, read⟩
  obtain ⟨decisions, decoded⟩ := exists_decodeBatch readable
  refine ⟨{ bundleRevision := report.revision, decisions }, Report.admit_eq_ok.mpr
    ⟨fits, by simp [Report.decode, decoded, noLoss], ?_⟩, rfl⟩
  have length := decodeBatch_length decoded
  have nonempty : decisions ≠ [] := by
    rintro rfl
    exact some (List.eq_nil_of_length_eq_zero length.symm)
  rw [checkBatch_of_noLoss nonempty (length ▸ few), checkDecisions_eq_ok]
  intro d member
  obtain ⟨queued, here, read⟩ := mem_of_decodeBatch decoded member
  obtain ⟨-, d', read', checked⟩ := (shippable queued here).accepted
  obtain rfl := Option.some.inj (read.symm.trans read')
  exact checked

/-! ## A handler without failures -/

/-- What serving a report changes apart from the chain. -/
structure Served (w w' : World σ) : Prop where
  pdp : w'.pdp = w.pdp
  flusher : w'.flusher = w.flusher
  answered : w'.answered = w.answered
  made : w'.made = w.made
  clock : w'.clock = w.clock
  noted : ∀ note ∈ w'.noted, note ∈ w.noted ∨ note.2 = w.clock
  driver : w'.store.db.driver = .sqlite
  leads : w'.store.isLeader = true

/-- The keys of decisions are remembered if they are known. -/
def World.Remembers (setup : Setup) (w : World σ) (batch : List Queued) : Prop :=
  ∀ queued ∈ batch, ∀ time, (decisionKey setup.agent queued.id, time) ∈ w.noted →
    w.clock ≤ time + auditOnceRetention

variable {w w' : World σ} {handler : Handler}

theorem World.Remembers.of_noted {batch : List Queued} (remembers : w.Remembers setup batch)
    (clock : w'.clock = w.clock) (noted : ∀ note ∈ w'.noted, note ∈ w.noted ∨ note.2 = w.clock) :
    w'.Remembers setup batch := by
  intro queued member time note
  rw [clock]
  rcases noted _ note with old | now
  · exact remembers queued member time old
  · have positive : 0 < auditOnceRetention := by decide
    change time = w.clock at now
    omega

/-- A handler whose decisions can all be encoded goes on to the last one. -/
theorem HandlerSound.next_of_drafted (sound : HandlerSound setup w handler)
    (genuine : ReportSound w handler.report) (noLoss : handler.loss = false)
    (drafted : ∀ queued ∈ handler.report.batch, (queued.draft setup.codec setup.agent).isSome) :
    (∃ key draft, handler.next setup.codec setup.agent = .inr (key, draft) ∧
      handler.recorded < handler.batch.decisions.length) ∨
      handler.next setup.codec setup.agent = .inl ⟨200, handler.recorded⟩ := by
  obtain ⟨-, decoded, -⟩ := Report.admit_eq_ok.mp sound.admitted
  obtain ⟨read, revision, -⟩ := Report.decode_eq_some decoded
  unfold Handler.next
  rw [noLoss, if_neg (by simp)]
  cases found : handler.batch.decisions[handler.recorded]? with
  | none => exact .inr rfl
  | some d =>
  have within := (List.getElem?_eq_some_iff.mp found).1
  rw [decodeBatch_get read, Option.bind_eq_some_iff] at found
  obtain ⟨queued, here, parsed⟩ := found
  have member := List.mem_of_getElem? here
  obtain ⟨draft, isDraft⟩ := Option.isSome_iff_exists.mp (drafted queued member)
  obtain ⟨d', payload, parsed', encoded, -⟩ := Queued.draft_eq_some.mp isDraft
  obtain rfl := Option.some.inj (parsed.symm.trans parsed')
  rw [(genuine.batch queued member).2, ← revision] at encoded
  refine .inl ⟨decisionKey setup.agent d.id, decisionDraft setup.agent d payload, ?_, within⟩
  simp only [encoded]

/-- One append that meets no failure. -/
theorem Sound.serves_one (sound : Sound setup w) {rest : List Handler} {key : Bytes}
    {draft : AuditDraft} (running : w.handlers = handler :: rest) (noLoss : handler.loss = false)
    (remembers : w.Remembers setup handler.report.batch) (driver : w.store.db.driver = .sqlite)
    (leads : w.store.isLeader = true)
    (next : handler.next setup.codec setup.agent = .inr (key, draft)) :
    ∃ w', Step setup true w w' ∧ Served w w' ∧ w'.answers = w.answers ∧
      w'.handlers = { handler with recorded := handler.recorded + 1 } :: rest := by
  have append := sound.nextAppend (sound.handlers handler (by simp [running])) next
  cases append with
  | loss pending => simp [noLoss] at pending
  | decision queued _ made here keyEq drafted =>
  have kind : draft.kind ≠ [] := by
    obtain ⟨d, payload, -, -, rfl⟩ := Queued.draft_eq_some.mp drafted
    change localDecisionKind ≠ []
    decide
  have named : key ≠ [] := by simp [keyEq, decisionKey]
  obtain ⟨appended, result, driver', leads'⟩ := @appendAuditOnce_sqlite _ setup.sha256 w.store
    (.clean w.clock) key draft driver leads rfl kind named
  have timely : w.Timely key w.clock := by
    refine ⟨le_rfl, fun time note => ?_⟩
    rw [keyEq] at note
    exact remembers queued (List.mem_of_getElem? here) time note
  refine ⟨w.append setup [] handler rest key draft (.clean w.clock),
    .append [] handler rest key draft (.clean w.clock) running next fun _ => timely,
    ⟨rfl, rfl, rfl, rfl, rfl, ?_, driver', leads'⟩, ?_, ?_⟩
  · intro note member
    unfold World.append at member
    dsimp only at member
    split at member
    · rcases List.mem_cons.mp member with rfl | old
      · exact .inr rfl
      · exact .inl old
    · exact .inl member
  · simp [World.append, result, Except.isOk, Except.toBool]
  · simp [World.append, result, Except.isOk, Except.toBool, Handler.advance, noLoss]

theorem Served.trans {w'' : World σ} (first : Served w w') (second : Served w' w'') :
    Served w w'' where
  pdp := second.pdp.trans first.pdp
  flusher := second.flusher.trans first.flusher
  answered := second.answered.trans first.answered
  made := second.made.trans first.made
  clock := second.clock.trans first.clock
  noted := by
    intro note member
    rcases second.noted note member with old | now
    · exact first.noted note old
    · exact .inr (now.trans first.clock)
  driver := second.driver
  leads := second.leads

/-- A handler that meets no failure answers that everything was recorded. -/
theorem Sound.serves (sound : Sound setup w) {rest : List Handler}
    (running : w.handlers = handler :: rest) (noLoss : handler.loss = false)
    (drafted : ∀ queued ∈ handler.report.batch, (queued.draft setup.codec setup.agent).isSome)
    (remembers : w.Remembers setup handler.report.batch) (driver : w.store.db.driver = .sqlite)
    (leads : w.store.isLeader = true) :
    ∃ w' count, ReflTransGen (Step setup true) w w' ∧ Served w w' ∧
      w'.answers = (handler.report, ⟨200, count⟩) :: w.answers := by
  -- the induction is on the decisions that are left
  induction left : handler.batch.decisions.length - handler.recorded generalizing w handler with
  | zero =>
    have own := sound.handlers handler (by simp [running])
    rcases own.next_of_drafted (sound.reports _ own.sent) noLoss drafted with
      ⟨key, draft, -, within⟩ | done
    · omega
    · exact ⟨_, handler.recorded, .single (.complete [] handler rest _ running done),
        ⟨rfl, rfl, rfl, rfl, rfl, fun _ => .inl, driver, leads⟩, rfl⟩
  | succ left ih =>
    have own := sound.handlers handler (by simp [running])
    rcases own.next_of_drafted (sound.reports _ own.sent) noLoss drafted with
      ⟨key, draft, next, within⟩ | done
    · obtain ⟨w₁, step, served, answers, handlers⟩ :=
        sound.serves_one running noLoss remembers driver leads next
      obtain ⟨w₂, count, steps, served₂, answers₂⟩ := ih (sound.step step) handlers noLoss drafted
        (remembers.of_noted served.clock served.noted) served.driver served.leads (by dsimp only; omega)
      exact ⟨w₂, count, .head step steps, served.trans served₂, answers ▸ answers₂⟩
    · exact ⟨_, handler.recorded, .single (.complete [] handler rest _ running done),
        ⟨rfl, rfl, rfl, rfl, rfl, fun _ => .inl, driver, leads⟩, rfl⟩

/-! ## A flush without failures -/

/-- A flush that can bring everything pending to the chain. -/
structure Draining (setup : Setup) (w : World σ) : Prop where
  looping : w.flusher = .looping
  noLoss : w.pdp.droppedIDs = []
  uncapped : w.pdp.batchCap = 0
  shippable : ∀ queued ∈ w.pdp.pending, Shippable setup queued
  remembers : w.Remembers setup w.pdp.pending
  driver : w.store.db.driver = .sqlite
  leads : w.store.isLeader = true

variable {recorders : Recorders} (authorized : recorders.mayRecordDecisions setup.agent = true)

include authorized in
/-- One round of a flush takes decisions off the queue. -/
theorem Draining.round (draining : Draining setup w) (sound : Sound setup w)
    (some : w.pdp.pending ≠ []) :
    ∃ w', ReflTransGen (Step setup true) w w' ∧ Draining setup w' ∧
      w'.pdp.pending.length < w.pdp.pending.length ∧ w'.answered = w.answered ∧ w'.made = w.made ∧
      ∀ queued, w'.Rejected queued → w.Rejected queued := by
  obtain ⟨first, rest, pending⟩ := List.exists_cons_of_ne_nil some
  obtain ⟨report, reported, noLoss, revision, batch⟩ :=
    w.pdp.report_of_noLoss pending draining.noLoss draining.uncapped
  have reports := PDP.reports_of_report reported
  have shippable : ∀ queued ∈ report.batch, Shippable setup queued := fun queued member =>
    draining.shippable queued (reports.batch.subset member)
  have few : report.batch.length ≤ maxDecisionBatch := by
    have taken := takeBatch_length_le first.revision (maxBatchDecisions - 1)
      (first.raw.length + 1) rest
    simp only [batch, List.length_cons, maxDecisionBatch, maxBatchDecisions] at taken ⊢
    omega
  have fits := fits_of_shippable batch revision noLoss
    (draining.shippable first (by simp [pending]))
  obtain ⟨decided, admitted, dropped⟩ := admit_of_shippable fits (by simp [batch]) few noLoss shippable
  -- the report goes out and is admitted
  have send : Step setup true w _ := .send report draining.looping reported
  have sentSound := sound.step send
  have accept : Step setup true { w with flusher := .waiting report, sent := report :: w.sent } _ :=
    .accept report decided recorders List.mem_cons_self authorized admitted
  have acceptSound := sentSound.step accept
  -- its decisions are appended
  have remembers : w.Remembers setup report.batch := fun queued member =>
    draining.remembers queued (reports.batch.subset member)
  obtain ⟨w₁, count, serving, served, answers⟩ := acceptSound.serves rfl
    (by simp [Handler.start, dropped]) (fun queued member => (shippable queued member).drafted)
    remembers draining.driver draining.leads
  -- and the answer takes them off the queue
  have pdp : w₁.pdp = w.pdp := served.pdp
  have receive : Step setup true w₁ _ := .receive report ⟨200, count⟩ ⟨0, 0, []⟩ served.flusher
    (.inl (answers ▸ List.mem_cons_self)) (by
      simp [PDP.respond, PDP.accepted, PDP.remove, pdp, draining.noLoss])
  refine ⟨_, .head send (.head accept (serving.tail receive)), ⟨?_, ?_, ?_, ?_, ?_, served.driver,
    served.leads⟩, ?_, served.answered, served.made, ?_⟩
  · simp [PDP.respond]
  · simp [PDP.respond, PDP.accepted, PDP.remove, pdp, draining.noLoss]
  · simp [PDP.respond, PDP.accepted]
  · intro queued member
    simp only [PDP.respond, PDP.accepted, PDP.remove, pdp, if_true] at member
    exact draining.shippable queued (List.mem_of_mem_drop member)
  · intro queued member
    simp only [PDP.respond, PDP.accepted, PDP.remove, pdp, if_true] at member
    exact draining.remembers.of_noted served.clock served.noted queued (List.mem_of_mem_drop member)
  · simp only [PDP.respond, PDP.accepted, PDP.remove, pdp, if_true, pending, batch,
      List.length_drop, List.length_cons]
    omega
  · rintro queued ⟨other, response, given, single, status⟩
    change (other, response) ∈ w₁.answers at given
    rw [answers] at given
    rcases List.mem_cons.mp given with same | old
    · obtain ⟨-, rfl⟩ := Prod.mk.inj same
      simp at status
    · exact ⟨other, response, old, single, status⟩

include authorized in
/-- A flush that meets no failure brings everything pending to the chain. -/
theorem Draining.drains (draining : Draining setup w) (sound : Sound setup w) :
    ∃ w', ReflTransGen (Step setup true) w w' ∧ w'.pdp.pending = [] ∧ w'.answered = w.answered ∧
      w'.made = w.made ∧ ∀ queued, w'.Rejected queued → w.Rejected queued := by
  induction count : w.pdp.pending.length using Nat.strong_induction_on generalizing w with
  | _ count ih =>
    by_cases empty : w.pdp.pending = []
    · exact ⟨w, .refl, empty, rfl, rfl, fun _ => id⟩
    obtain ⟨w₁, steps, draining₁, shorter, answered, made, rejected⟩ :=
      draining.round authorized sound empty
    have sound₁ : Sound setup w₁ := by
      clear shorter answered made rejected draining₁
      induction steps with
      | refl => exact sound
      | tail _ step ih => exact ih.step step
    obtain ⟨w₂, steps₂, drained, answered₂, made₂, rejected₂⟩ :=
      ih _ (count ▸ shorter) draining₁ sound₁ rfl
    exact ⟨w₂, steps.trans steps₂, drained, answered₂.trans answered, made₂.trans made,
      fun queued member => rejected queued (rejected₂ queued member)⟩

/-! ## The spool survives crashes -/

/-- An agent that has read its spool, at a control plane that takes what is
pending and still remembers what it took before. -/
structure Node.Recovers (setup : Setup) (recorders : Recorders) (node : Node σ) : Prop where
  restored : node.phase = .restored
  authorized : recorders.mayRecordDecisions setup.agent = true
  shippable : ∀ queued ∈ node.world.pdp.pending, Shippable setup queued
  remembers : node.world.Remembers setup node.world.pdp.pending
  driver : node.world.store.db.driver = .sqlite
  leads : node.world.store.isLeader = true

variable {store : Store σ} {node : Node σ} {n : Nat}

theorem NodeReaches.steps {node' : Node σ} (reaches : NodeReaches setup store node)
    (steps : ReflTransGen (NodeStep setup) node node') :
    NodeReaches setup store node' := by
  induction steps with
  | refl => exact reaches
  | tail _ step ih => exact ih.step step

theorem nodeSteps {node : Node σ} (up : node.phase = .up) {w : World σ}
    (steps : ReflTransGen (Step setup true) node.world w) :
    ReflTransGen (NodeStep setup) node { node with world := w } := by
  induction steps with
  | refl => exact .refl
  | tail _ step ih => exact ih.tail (.step _ up step)

/-- Only decisions that were made are answered. -/
theorem NodeReaches.answered_made (reaches : NodeReaches setup store node)
    (shallow : ∀ queued ∈ node.world.made, queued.Shallow) :
    ∀ queued ∈ node.world.answered, queued ∈ node.world.made := by
  induction reaches with
  | start => simp [Node.start]
  | step reaches step ih =>
  have before := fun queued member => shallow queued (step.made queued member)
  have sound := (reaches.durable before).sound
  have known := ih before
  cases step with
  | step w up step | server w step =>
    intro queued member
    have frame := step.frame sound
    exact frame.made queued (known queued (frame.answered ▸ member))
  | answer before queued after up locked waiting =>
    exact List.forall_mem_cons.mpr ⟨sound.queue.decided queued (by simp [waiting]), known⟩
  | _ => exact known

/-- What is kept is kept once. -/
theorem World.Keeps.copies {kept : List Queued} (keeps : w.Keeps setup kept)
    (once : ∀ queued ∈ w.made, OnChainOnce setup w queued)
    (known : ∀ queued ∈ w.answered, queued ∈ w.made) (answered : queued ∈ w.answered)
    (taken : ¬ w.Rejected queued) :
    queued ∈ kept ∨ queued.copies setup w.rows = 1 := by
  rcases keeps queued answered with rejected | recorded | here
  · exact absurd rejected taken
  · exact .inr ((once queued (known queued answered)).copies_eq_one recorded)
  · exact .inl here

/-- An agent that restarts at a control plane that takes what is pending brings
every decision to the chain that was answered and not rejected. -/
theorem NodeReaches.recovers {recorders : Recorders} (reaches : NodeReaches setup store node)
    (shallow : ∀ queued ∈ node.world.made, queued.Shallow)
    (recovers : node.Recovers setup recorders) :
    ∃ node', ReflTransGen (NodeStep setup) node node' ∧
      node'.world.answered = node.world.answered ∧
      ∀ queued ∈ node.world.answered, ¬ node.world.Rejected queued →
        queued.copies setup node'.world.rows = 1 := by
  -- the agent serves, and its first flush begins
  obtain ⟨loaded, stored⟩ := (reaches.durable shallow).down (by simp [recovers.restored])
  have serve : NodeStep setup node _ := .serve recovers.restored
  have begin : NodeStep setup
      { node with spool := Journal.render spoolFormat node.world.pdp.pending, phase := .up }
      { node with
        world := { node.world with flusher := .looping }
        spool := Journal.render spoolFormat node.world.pdp.pending
        phase := .up } := .step _ rfl (.begin stored.stopped)
  have served := (reaches.step serve).step begin
  have draining : Draining setup { node.world with flusher := .looping } :=
    ⟨rfl, stored.noLoss, stored.uncapped, recovers.shippable, recovers.remembers, recovers.driver,
      recovers.leads⟩
  obtain ⟨w, steps, drained, answered, made, rejected⟩ :=
    draining.drains recovers.authorized (served.durable shallow).sound
  have lifted := @nodeSteps σ setup ⟨{ node.world with flusher := .looping }, .up,
    Journal.render spoolFormat node.world.pdp.pending, node.writing⟩ rfl w steps
  have after := served.steps lifted
  have shallow' : ∀ queued ∈ w.made, queued.Shallow := fun queued member =>
    shallow queued (made ▸ member)
  refine ⟨_, .head serve (.head begin lifted), answered, ?_⟩
  intro queued member taken
  obtain ⟨lines, running⟩ := (after.durable shallow').up rfl
  have stillAnswered : queued ∈ w.answered := answered ▸ member
  rcases running.keeps.copies (after.onChainOnce shallow') (after.answered_made shallow')
    stillAnswered fun is => taken (rejected queued is) with waiting | one
  · rw [drained] at waiting
    simp at waiting
  · exact one

/-- As long as no decision nests too deep, the spool is loaded after a crash at
any point, with every decision that was answered and is neither rejected nor on
the chain; none is on the chain twice, and once what is pending is taken each is
there once. -/
theorem spool_survives {store : Store σ} {node : Node σ} (reaches : NodeReaches setup store node)
    (shallow : ∀ queued ∈ node.world.made, queued.Shallow) :
    (node.phase = .down → ∃ pending, Journal.load spoolFormat node.spool = some pending ∧
      ∀ queued ∈ node.world.answered, ¬ node.world.Rejected queued →
        queued ∈ pending ∨ queued.copies setup node.world.rows = 1) ∧
    (node.phase ≠ .down → ∀ queued ∈ node.world.answered, ¬ node.world.Rejected queued →
      queued ∈ node.world.pdp.pending ∨ queued.copies setup node.world.rows = 1) ∧
    (∀ queued ∈ node.world.answered, queued.copies setup node.world.rows ≤ 1) ∧
    ∀ recorders, node.Recovers setup recorders →
      ∃ node', ReflTransGen (NodeStep setup) node node' ∧
        node'.world.answered = node.world.answered ∧
        ∀ queued ∈ node.world.answered, ¬ node.world.Rejected queued →
          queued.copies setup node'.world.rows = 1 := by
  have durable := reaches.durable shallow
  have once := reaches.onChainOnce shallow
  have known := reaches.answered_made shallow
  refine ⟨?_, ?_, fun queued member => (once queued (known queued member)).copies_le,
    fun recorders recovers => reaches.recovers shallow recovers⟩
  · intro down
    obtain ⟨loaded, stored⟩ := durable.down (by simp [down])
    exact ⟨loaded, stored.loads, fun queued => stored.keeps.copies once known⟩
  · intro notDown queued
    by_cases up : node.phase = .up
    · obtain ⟨lines, running⟩ := durable.up up
      exact running.keeps.copies once known
    · obtain ⟨loaded, stored⟩ := durable.down up
      have restored : node.phase = .restored := by
        cases phase : node.phase <;> simp_all
      rw [stored.pending restored]
      exact stored.keeps.copies once known

/-! ## A decision that nests too deep -/

/-- Arrays in arrays. -/
def nested : Nat → Value
  | 0 => .arr []
  | n + 1 => .arr [nested n]

theorem depth_nested (n : Nat) : Json.depth (sampleValue (nested n)) = n + 1 := by
  induction n with
  | zero => rfl
  | succ n ih => simp [nested, sampleValue, sampleValues, Json.depth, Json.depthItems, ih]

theorem encode_nested (n : Nat) :
    ∃ rest, Json.encode (sampleValue (nested n)) = List.replicate (n + 1) 91 ++ rest := by
  have bracket : ascii "[" = [91] := by decide
  induction n with
  | zero => exact ⟨ascii "]", rfl⟩
  | succ n ih =>
  obtain ⟨rest, written⟩ := ih
  refine ⟨rest ++ ascii "]", ?_⟩
  simp [nested, sampleValue, sampleValues, Json.encode, Json.encodeItems, written, bracket,
    List.replicate_succ]

/-- The request passes the checks on its values. -/
theorem recordFromMap_nested (n : Nat) : recordFromMap [(ascii "a", nested n)] = .ok () := by
  have values : containsNull (nested n) = false ∧ valueOf (nested n) = .ok () := by
    induction n with
    | zero => exact ⟨rfl, rfl⟩
    | succ n ih => simp [nested, containsNull, anyContainsNull, valueOf, valuesOf, ih]
  simp [recordFromMap, values]

/-- A call with a context of nested arrays. -/
def nestedCall (n : Nat) : EvalCall :=
  { sampleCall 0 with
    request := { (sampleCall 0).request with context := [(ascii "a", nested n)] } }

theorem validate_nestedCall (n : Nat) : validate (nestedCall n).request = .ok () := by
  have required : validateFields (nestedCall n).request = .ok () :=
    show validateFields (sampleCall 0).request = .ok () by decide
  have context : (nestedCall n).request.context = [(ascii "a", nested n)] := rfl
  rw [validate, required, context, recordFromMap_nested]
  rfl

/-- The decision about the call as the agent writes it. -/
def nestedDoc (n : Nat) : Json :=
  .obj [(ascii "id", .str (newID [1])),
    (ascii "request", .obj [(ascii "context", .obj [(ascii "a", sampleValue (nested n))])])]

def nestedQueued (n : Nat) : Queued :=
  ⟨newID [1], Json.encode (nestedDoc n), sampleBundle.revision⟩

theorem nestedCall_decide (n : Nat) :
    (nestedCall n).decide samplePolicy sampleCodec.marshal sampleBundle =
      .ok ({ decision := true, context := none, reasons := [] }, nestedQueued n) :=
  rfl

/-- The decision can be written when it nests within the limit. -/
theorem nestedQueued_marshals (within : n + 4 ≤ Json.maxNestingDepth) :
    (nestedQueued n).marshals = true := by
  have shallow : Json.depth (nestedDoc n) ≤ Json.maxNestingDepth := by
    simp only [nestedDoc, Json.depth, Json.depthFields, depth_nested]
    omega
  have read := @Json.value_encode (nestedDoc n) ((Json.encode (nestedDoc n)).length + 1)
    Json.maxNestingDepth [] (Nat.le_succ _) shallow Json.endsNumber_nil
  rw [List.append_nil] at read
  exact reads_eq_true.mpr ⟨_, read⟩

theorem encode_nestedDoc (n : Nat) : ∃ rest, Json.encode (nestedDoc n) =
    123 :: (Json.quote (ascii "id") ++ 58 :: (Json.quote (newID [1]) ++ 44 ::
      (Json.quote (ascii "request") ++ 58 :: 123 :: (Json.quote (ascii "context") ++ 58 :: 123 ::
        (Json.quote (ascii "a") ++ 58 :: (List.replicate (n + 1) 91 ++ rest)))))) := by
  obtain ⟨rest, written⟩ := encode_nested n
  have colon : ascii ":" = [58] := by decide
  have comma : ascii "," = [44] := by decide
  refine ⟨rest ++ [125, 125, 125], ?_⟩
  simp [nestedDoc, Json.encode, Json.encodeFields, written, colon, comma]

/-- Its line is not read when that nests past the limit. -/
theorem nestedQueued_unread (deep : Json.maxNestingDepth < n + 5) :
    unmarshalEntry (spoolLine (nestedQueued n)) = none := by
  obtain ⟨rest, written⟩ := encode_nestedDoc n
  have count : 9996 < n + 1 := by
    simp only [Json.maxNestingDepth] at deep
    omega
  have raw : (nestedQueued n).raw = Json.encode (nestedDoc n) := rfl
  apply unmarshalEntry_of_deep
  · rw [raw, written]
    rfl
  -- one level for the decision, the request and the context each
  have arrays := fun fuel => value_arrays count fuel (rest ++ [125])
  have context := value_of_fields_none fun fuel =>
    fields_of_value_none (by rw [List.replicate_succ]; rfl) arrays fuel (ascii "a")
  have request := value_of_fields_none fun fuel =>
    fields_of_value_none rfl context fuel (ascii "context")
  have decision := value_of_fields_none fun fuel => fields_of_later_none
    (fields_of_value_none rfl request · (ascii "request")) (skipSpace_quote _ _) fuel
    (ascii "id") (newID [1])
  intro fuel
  rw [raw, written]
  simpa [Json.maxNestingDepth] using decision fuel

/-! An agent that answered one decision and crashed. -/

def crashedNode (queued : Queued) : Node Unit :=
  ⟨{ World.start sampleStore 0 with made := [queued], answered := [queued] }, .down,
    spoolLine queued ++ [10], none⟩

theorem crashedNode_reaches {call : EvalCall} {response : EvalResponse} {queued : Queued}
    (now : call.now = 0)
    (decided : call.decide samplePolicy sampleCodec.marshal sampleBundle = .ok (response, queued))
    (marshals : queued.marshals = true) :
    NodeReaches sampleSetup sampleStore (crashedNode queued) := by
  have started : NodeReaches sampleSetup sampleStore (Node.start sampleStore 0) := .start 0
  have restored := started.step (.read [] Clock.zeroInstant rfl Journal.load_nil)
  have served := restored.step (.serve rfl)
  have loaded := served.step (.step _ rfl (.load sampleBundle (.still 0) rfl
    (by decide +kernel) (by decide +kernel) rfl))
  have stamped := loaded.step (.step _ rfl (.stamp sampleBundle 0 0 rfl))
  have reserved := stamped.step (.step _ rfl (.reserve call _ (by rw [now]; rfl)))
  have made := reserved.step (.step _ rfl (.decide [] call [] response queued rfl decided
    ⟨by simp [World.restored, Node.start], rfl,
      fun _ member => absurd member List.not_mem_nil⟩))
  have written := made.step (.write [] queued [] rfl rfl rfl marshals)
  have answered := written.step (.answer [] queued [] rfl rfl rfl)
  exact answered.step .crash

theorem spool_survives_sample :
    ∃ pending, Journal.load spoolFormat (crashedNode sampleQueued).spool = some pending ∧
      ∀ queued ∈ (crashedNode sampleQueued).world.answered,
        ¬ (crashedNode sampleQueued).world.Rejected queued →
          queued ∈ pending ∨
            queued.copies sampleSetup (crashedNode sampleQueued).world.rows = 1 := by
  have reaches : NodeReaches sampleSetup sampleStore (crashedNode sampleQueued) :=
    @crashedNode_reaches (sampleCall 0) _ sampleQueued rfl rfl (by decide)
  have shallow : sampleQueued.Shallow := show reads _ _ = true by decide
  exact (spool_survives reaches (List.forall_mem_singleton.mpr shallow)).1 rfl

/-- A decision that can be written and whose line cannot be read is lost when the
agent crashes: the line is taken for a torn one. -/
theorem nested_lost {n : Nat} (within : n + 4 ≤ Json.maxNestingDepth)
    (deep : Json.maxNestingDepth < n + 5) :
    NodeReaches sampleSetup sampleStore (crashedNode (nestedQueued n)) ∧
      ¬ (crashedNode (nestedQueued n)).world.Rejected (nestedQueued n) ∧
      Journal.load spoolFormat (crashedNode (nestedQueued n)).spool = some [] ∧
      (nestedQueued n).copies sampleSetup (crashedNode (nestedQueued n)).world.rows = 0 := by
  refine ⟨crashedNode_reaches rfl (nestedCall_decide n) (nestedQueued_marshals within), ?_, ?_, ?_⟩
  · rintro ⟨report, response, given, -⟩
    exact absurd given List.not_mem_nil
  · have feed : 10 ∉ spoolLine (nestedQueued n) := by
      have raw : 10 ∉ (nestedQueued n).raw := Json.feed_notMem_encode _
      simp [spoolLine_eq, Json.feed_notMem_quote, raw]
    have unread : spoolFormat.read (spoolLine (nestedQueued n)) = none := by
      rw [spoolFormat_read, nestedQueued_unread deep]
    have spool : (crashedNode (nestedQueued n)).spool = spoolLine (nestedQueued n) ++ [10] := rfl
    rw [spool, Journal.load_unreadable feed unread]
  · rw [Queued.copies_eq_zero]
    rintro ⟨draft, -, ev, member, -⟩
    exact absurd member List.not_mem_nil

/-- A request of 9999 levels is answered, and the decision is neither loaded nor
on the chain nor rejected after a crash. -/
theorem deep_decision_lost :
    validate (nestedCall 9996).request = .ok () ∧
      NodeReaches sampleSetup sampleStore (crashedNode (nestedQueued 9996)) ∧
      (crashedNode (nestedQueued 9996)).phase = .down ∧
      nestedQueued 9996 ∈ (crashedNode (nestedQueued 9996)).world.answered ∧
      ¬ (crashedNode (nestedQueued 9996)).world.Rejected (nestedQueued 9996) ∧
      Journal.load spoolFormat (crashedNode (nestedQueued 9996)).spool = some [] ∧
      (nestedQueued 9996).copies sampleSetup (crashedNode (nestedQueued 9996)).world.rows = 0 := by
  obtain ⟨reaches, taken, loaded, absent⟩ := @nested_lost 9996 (by decide) (by decide)
  exact ⟨validate_nestedCall 9996, reaches, rfl, List.mem_singleton_self _, taken, loaded, absent⟩

end OmegaPlane.Agent
