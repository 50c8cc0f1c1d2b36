import OmegaPlane.Agent.Invariant
import OmegaPlane.Agent.SpoolLine

/-!
# The decision spool

With a spool an agent writes a decision to a file before it answers it.  The
file is replaced by what is pending after a flush and when the agent starts.  A
crash loses the memory at any point and may tear the write it interrupts.
-/

namespace OmegaPlane.Agent

open Audit Storage Decision

variable {σ : Type}

/-- A decision as an agent writes it: the id and the revision are hex texts. -/
structure Plain (setup : Setup) (queued : Queued) : Prop where
  id : ∃ random, queued.id = newID random
  revision : ∃ digest, queued.revision = Hex.encodeToString digest
  raw : ∃ d, setup.codec.marshal d = some queued.raw

/-- The line of the decision nests within the limit: the decision one level
less. -/
def Queued.Shallow (queued : Queued) : Prop :=
  reads (Json.maxNestingDepth - 1) queued.raw = true

variable {queued : Queued}

theorem Plain.readable {setup : Setup} (plain : Plain setup queued) (shallow : queued.Shallow) :
    Readable queued := by
  obtain ⟨d, written⟩ := plain.raw
  obtain ⟨opens, feed⟩ := setup.codec.marshal_object written
  exact ⟨plain.id, plain.revision, opens, feed, shallow⟩

/-- A process is up, has crashed, or is starting: it has read the spool and has
not replaced it yet. -/
inductive Phase where
  | up
  | down
  | restored
  deriving DecidableEq

/-- An agent with its spool. -/
structure Node (σ : Type) where
  world : World σ
  phase : Phase
  spool : Bytes
  /-- The decision on the spool that is not queued yet, under the spool lock. -/
  writing : Option Queued

/-- A crash loses the memory of the agent. -/
def World.crashed (w : World σ) : World σ :=
  { w with pdp := .new, syncing := none, deciding := [], decided := [], flusher := .idle }

/-- The queue and the high-water mark are restored. -/
def World.restored (w : World σ) (pending : List Queued) (issuedAt : Int) : World σ :=
  { w with pdp := { w.pdp with pending := pending ++ w.pdp.pending, issuedAt := issuedAt } }

variable (setup : Setup)

inductive NodeStep : Node σ → Node σ → Prop where
  | step {node : Node σ} (w : World σ) (up : node.phase = .up)
      (step : Step setup true node.world w) : NodeStep node { node with world := w }
  /-- The control plane goes on while the agent is down. -/
  | server {node : Node σ} (w : World σ) (step : Step setup true node.world w)
      (pdp : w.pdp = node.world.pdp) (syncing : w.syncing = node.world.syncing)
      (deciding : w.deciding = node.world.deciding) (decided : w.decided = node.world.decided)
      (flusher : w.flusher = node.world.flusher) : NodeStep node { node with world := w }
  /-- `evaluate` writes a line and syncs it. -/
  | write {node : Node σ} (before : List Queued) (queued : Queued) (after : List Queued)
      (up : node.phase = .up) (unlocked : node.writing = none)
      (waiting : node.world.decided = before ++ queued :: after)
      (marshals : queued.marshals = true) :
      NodeStep node
        { node with
          spool := node.spool ++ (spoolFormat.line queued ++ [10])
          writing := some queued }
  /-- The decision has no line and is not answered. -/
  | unspooled {node : Node σ} (before : List Queued) (queued : Queued) (after : List Queued)
      (up : node.phase = .up) (unlocked : node.writing = none)
      (waiting : node.world.decided = before ++ queued :: after)
      (refused : queued.marshals = false) :
      NodeStep node
        { node with
          world := { node.world with pdp := node.world.pdp.release, decided := before ++ after } }
  /-- The decision is queued and answered, still under the lock. -/
  | answer {node : Node σ} (before : List Queued) (queued : Queued) (after : List Queued)
      (up : node.phase = .up) (locked : node.writing = some queued)
      (waiting : node.world.decided = before ++ queued :: after) :
      NodeStep node
        { node with
          world :=
            { node.world with
              pdp := node.world.pdp.enqueue queued
              decided := before ++ after
              answered := queued :: node.world.answered }
          writing := none }
  /-- A flush that took decisions off the queue replaces the spool. -/
  | rewrite {node : Node σ} (up : node.phase = .up) (unlocked : node.writing = none)
      (returned : node.world.flusher = .returned) :
      NodeStep node { node with spool := Journal.render spoolFormat node.world.pdp.pending }
  | crash {node : Node σ} :
      NodeStep node { node with world := node.world.crashed, phase := .down, writing := none }
  /-- A crash while a line is written. -/
  | tear {node : Node σ} (before : List Queued) (queued : Queued) (after : List Queued)
      (torn : Bytes) (up : node.phase = .up) (unlocked : node.writing = none)
      (waiting : node.world.decided = before ++ queued :: after) (marshals : queued.marshals = true)
      (part : torn <+: spoolFormat.line queued ++ [10]) :
      NodeStep node
        { node with
          world := node.world.crashed
          phase := .down
          spool := node.spool ++ torn }
  /-- `RestoreSpool` reads the spool. -/
  | read {node : Node σ} (pending : List Queued) (issuedAt : Int) (down : node.phase = .down)
      (loaded : Journal.load spoolFormat node.spool = some pending) :
      NodeStep node { node with world := node.world.restored pending issuedAt, phase := .restored }
  /-- `RestoreSpool` replaces the spool, and the agent serves. -/
  | serve {node : Node σ} (restored : node.phase = .restored) :
      NodeStep node
        { node with
          spool := Journal.render spoolFormat node.world.pdp.pending
          phase := .up }

/-- An agent before its first start, without a spool file. -/
def Node.start (store : Store σ) (clock : Int) : Node σ :=
  ⟨World.start store clock, .down, [], none⟩

inductive NodeReaches (store : Store σ) : Node σ → Prop where
  | start (clock : Int) : NodeReaches store (Node.start store clock)
  | step {node node' : Node σ} (reaches : NodeReaches store node)
      (step : NodeStep setup node node') : NodeReaches store node'

/-! ## What a step leaves alone -/

/-- The control plane rejected the decision when it came alone. -/
def World.Rejected (w : World σ) (queued : Queued) : Prop :=
  ∃ report response, (report, response) ∈ w.answers ∧ report.batch = [queued] ∧
    (response.status = 400 ∨ response.status = 413)

/-- The engine holds a bundle with a hex revision. -/
def World.HexRevision (w : World σ) : Prop :=
  ∃ digest, w.pdp.bundle.revision = Hex.encodeToString digest

variable {setup}

/-- What a step can do to the decisions of a sound world. -/
structure StepFrame (setup : Setup) (w w' : World σ) : Prop where
  grows : Grows w w'
  answered : w'.answered = w.answered
  answers : ∀ answer ∈ w.answers, answer ∈ w'.answers
  made : ∀ queued ∈ w.made, queued ∈ w'.made
  plain : w.HexRevision → ∀ queued ∈ w'.made, queued ∈ w.made ∨ Plain setup queued
  engine : w.HexRevision → w'.HexRevision
  pending : ∀ queued ∈ w'.pdp.pending, queued ∈ w.pdp.pending
  kept : ∀ queued ∈ w.pdp.pending, queued ∈ w'.pdp.pending ∨ queued.Recorded setup w'.rows ∨
    w'.Rejected queued

theorem plain_of_decide {call : EvalCall} {bundle : Bundle} {response : EvalResponse}
    (decided : queued.DecidedWith setup call bundle response)
    (revision : ∃ digest, bundle.revision = Hex.encodeToString digest) : Plain setup queued := by
  refine ⟨decided.genuine.drawn, decided.revision ▸ revision, ?_⟩
  unfold Queued.DecidedWith EvalCall.decide at decided
  split at decided
  · contradiction
  split at decided
  · contradiction
  · rename_i raw encoded
    cases decided
    exact ⟨_, encoded⟩

variable {w w' : World σ} {timed : Bool}

/-- A step that leaves the queue, the engine and the decisions alone. -/
theorem StepFrame.of_same (grows : Grows w w') (answered : w'.answered = w.answered)
    (answers : ∀ answer ∈ w.answers, answer ∈ w'.answers) (made : w'.made = w.made)
    (bundle : w'.pdp.bundle = w.pdp.bundle) (pending : w'.pdp.pending = w.pdp.pending) :
    StepFrame setup w w' where
  grows := grows
  answered := answered
  answers := answers
  made := fun _ member => made ▸ member
  plain := fun _ _ member => .inl (made ▸ member)
  engine := by
    rw [World.HexRevision, World.HexRevision, bundle]
    exact id
  pending := fun _ member => pending ▸ member
  kept := fun _ member => .inl (pending ▸ member)

theorem StepFrame.receive (sound : Sound setup w) {report : Report} {response : Response}
    {handling : Handling} {flusher : Flusher} {losses : List (Bytes × Bytes)} {after : PDP}
    (waiting : w.flusher = .waiting report) (received : w.Received report response)
    (handled : Handled w.pdp report response handling after)
    (bundle : after.bundle = w.pdp.bundle) :
    StepFrame setup w { w with pdp := after, flusher := flusher, losses := losses } := by
  obtain ⟨-, reports⟩ := sound.waiting report waiting
  have told := sound.received received
  refine ⟨⟨fun _ => id, fun _ => id⟩, rfl, fun _ => id, fun _ => id, fun _ _ => .inl, ?_, ?_, ?_⟩
  · rw [World.HexRevision, World.HexRevision, bundle]
    exact id
  · intro queued member
    cases handled with
    | accepted status pending | kept status pending => exact List.mem_of_mem_drop (pending ▸ member)
    | dropped first status some left pending =>
      rw [(sound.dropped_first waiting received status some left pending).1]
      exact List.mem_cons_of_mem _ member
  · intro queued member
    cases handled with
    | accepted status pending =>
      rcases mem_drop_or_mem_take reports.batch le_rfl member with shipped | later
      · rw [List.take_length] at shipped
        exact .inr (.inl ((told.all status).1 queued shipped))
      · exact .inl (pending ▸ later)
    | kept status pending =>
      obtain ⟨counted, within⟩ := report.partly_le response
      rcases mem_drop_or_mem_take reports.batch within member with shipped | later
      · refine .inr (.inl (told.partly queued ?_))
        exact (List.take_prefix_take_left counted).subset shipped
      · exact .inl (pending ▸ later)
    | dropped first status some left pending =>
      obtain ⟨queue, single, -⟩ :=
        sound.dropped_first waiting received status some left pending
      rw [queue] at member
      rcases List.mem_cons.mp member with rfl | later
      · refine .inr (.inr ?_)
        rcases received with whole | ⟨recorded, given, -⟩
        · exact ⟨report, response, whole, single, status⟩
        · exact ⟨report, _, given, single, status⟩
      · exact .inl later

theorem Step.frame (sound : Sound setup w) (step : Step setup timed w w') :
    StepFrame setup w w' := by
  have grows := step.grows
  cases step with
  | load bundle clock idle checked revision =>
    exact ⟨grows, rfl, fun _ => id, fun _ => id, fun _ _ => .inl, fun _ => ⟨_, revision⟩,
      fun _ => id, fun _ => .inl⟩
  | stamp | notModified | undecided | begin | send | drained | lose | finish | accept
  | others => exact .of_same grows rfl (fun _ => id) rfl rfl rfl
  | reserve call pdp held =>
    obtain rfl := PDP.reserve_eq_ok held
    exact .of_same grows rfl (fun _ => id) rfl rfl rfl
  | decide before call after response queued waiting decided =>
    refine ⟨grows, rfl, fun _ => id, fun _ => List.mem_cons_of_mem _, ?_, id, fun _ => id,
      fun _ => .inl⟩
    intro revision other member
    rcases List.mem_cons.mp member with rfl | old
    · exact .inr (plain_of_decide decided revision)
    · exact .inl old
  | receive report response handling waiting received =>
    exact .receive sound waiting received (w.pdp.respond_handled _ report response handling)
      (w.pdp.respond_bundle _ report response handling)
  | forbid | reject | complete =>
    exact .of_same grows rfl (fun _ => List.mem_cons_of_mem _) rfl rfl rfl
  | append =>
    refine .of_same grows rfl ?_ rfl rfl rfl
    intro answer member
    unfold World.append
    dsimp only
    split
    · exact member
    · exact List.mem_cons_of_mem _ member

theorem Step.made (step : Step setup timed w w') : ∀ queued ∈ w.made, queued ∈ w'.made := by
  cases step with
  | decide => exact fun _ => List.mem_cons_of_mem _
  | _ => exact fun _ => id

/-! ## What the spool holds -/

theorem Sound.crashed (sound : Sound setup w) : Sound setup w.crashed :=
  sound.of_memory (by simp [PDP.new]) (by simp) (by simp) (.inl ⟨rfl, rfl⟩)

variable {pending : List Queued}

theorem Sound.restored (sound : Sound setup w) (known : ∀ queued ∈ pending, queued ∈ w.made)
    (issuedAt : Int) (stopped : ∀ report, w.flusher ≠ .waiting report) :
    Sound setup (w.restored pending issuedAt) := by
  refine sound.of_memory ?_ sound.queue.decided (fun report waits => absurd waits (stopped report))
    sound.lost
  intro queued member
  rcases List.mem_append.mp member with loaded | old
  · exact known queued loaded
  · exact sound.queue.pending queued old

/-- Every answered decision is rejected, on the chain or among the given ones. -/
def World.Keeps (setup : Setup) (w : World σ) (kept : List Queued) : Prop :=
  ∀ queued ∈ w.answered, w.Rejected queued ∨ queued.Recorded setup w.rows ∨ queued ∈ kept

variable {kept kept' : List Queued} {node : Node σ}

theorem World.Keeps.mono (keeps : w.Keeps setup kept) (frame : StepFrame setup w w')
    (still : ∀ queued ∈ kept, w'.Rejected queued ∨ queued.Recorded setup w'.rows ∨ queued ∈ kept') :
    w'.Keeps setup kept' := by
  intro queued member
  rw [frame.answered] at member
  rcases keeps queued member with ⟨report, response, given, rest⟩ | recorded | here
  · exact .inl ⟨report, response, frame.answers _ given, rest⟩
  · exact .inr (.inl (recorded.mono frame.grows.rows))
  · exact still queued here

/-- While the agent is up, the spool holds whole lines, among them everything
pending. -/
structure Running (setup : Setup) (node : Node σ)
    (lines : List Queued) : Prop where
  spool : node.spool = Journal.render spoolFormat lines
  made : ∀ queued ∈ lines, queued ∈ node.world.made
  pending : ∀ queued ∈ node.world.pdp.pending, queued ∈ lines
  writing : ∀ queued, node.writing = some queued → queued ∈ lines
  keeps : node.world.Keeps setup node.world.pdp.pending

/-- While it is not, the spool can be loaded. -/
structure Stored (setup : Setup) (node : Node σ)
    (loaded : List Queued) : Prop where
  loads : Journal.load spoolFormat node.spool = some loaded
  made : ∀ queued ∈ loaded, queued ∈ node.world.made
  keeps : node.world.Keeps setup loaded
  empty : node.phase = .down → node.world.pdp.pending = []
  pending : node.phase = .restored → node.world.pdp.pending = loaded
  stopped : node.world.flusher = .idle
  noLoss : node.world.pdp.droppedIDs = []
  uncapped : node.world.pdp.batchCap = 0

structure Durable (setup : Setup) (node : Node σ) : Prop where
  sound : Sound setup node.world
  engine : node.world.HexRevision
  plain : ∀ queued ∈ node.world.made, Plain setup queued
  up : node.phase = .up → ∃ lines, Running setup node lines
  down : node.phase ≠ .up → ∃ loaded, Stored setup node loaded

theorem Durable.start (store : Store σ) (clock : Int) : Durable setup (Node.start store clock) where
  sound := .start store clock
  engine := ⟨[], rfl⟩
  plain := by simp [Node.start]
  up := by simp [Node.start]
  down := fun _ => ⟨[], Journal.load_nil, by simp, by simp [World.Keeps, Node.start],
    fun _ => rfl, fun _ => rfl, rfl, rfl, rfl⟩

theorem Durable.readable (durable : Durable setup node)
    (shallow : ∀ queued ∈ node.world.made, queued.Shallow) (made : queued ∈ node.world.made) :
    Readable queued :=
  (durable.plain queued made).readable (shallow queued made)

theorem Durable.plain_of_frame (durable : Durable setup node)
    (frame : StepFrame setup node.world w) : ∀ queued ∈ w.made, Plain setup queued := by
  intro queued member
  rcases frame.plain durable.engine queued member with old | plain
  · exact durable.plain queued old
  · exact plain

theorem Durable.step (durable : Durable setup node) (up : node.phase = .up)
    (step : Step setup true node.world w) :
    Durable setup { node with world := w } := by
  have frame := step.frame durable.sound
  refine ⟨durable.sound.step step, frame.engine durable.engine, durable.plain_of_frame frame, ?_,
    fun notUp => absurd up notUp⟩
  intro _
  obtain ⟨lines, running⟩ := durable.up up
  refine ⟨lines, running.spool, fun queued member => frame.made queued (running.made queued member),
    fun queued member => running.pending queued (frame.pending queued member), running.writing,
    running.keeps.mono frame ?_⟩
  intro queued member
  rcases frame.kept queued member with here | recorded | rejected
  · exact .inr (.inr here)
  · exact .inr (.inl recorded)
  · exact .inl rejected

theorem Durable.server (durable : Durable setup node) (step : Step setup true node.world w)
    (pdp : w.pdp = node.world.pdp) (flusher : w.flusher = node.world.flusher) :
    Durable setup { node with world := w } := by
  by_cases up : node.phase = .up
  · exact durable.step up step
  have frame := step.frame durable.sound
  refine ⟨durable.sound.step step, frame.engine durable.engine, durable.plain_of_frame frame,
    fun isUp => absurd isUp up, ?_⟩
  intro _
  obtain ⟨loaded, stored⟩ := durable.down up
  exact ⟨loaded, stored.loads, fun queued member => frame.made queued (stored.made queued member),
    stored.keeps.mono frame fun _ member => .inr (.inr member),
    fun isDown => (congrArg PDP.pending pdp).trans (stored.empty isDown),
    fun restored => (congrArg PDP.pending pdp).trans (stored.pending restored),
    flusher.trans stored.stopped, (congrArg PDP.droppedIDs pdp).trans stored.noLoss,
    (congrArg PDP.batchCap pdp).trans stored.uncapped⟩

variable {before after : List Queued} {node' : Node σ}

section

variable (durable : Durable setup node)
include durable

theorem Durable.write (up : node.phase = .up)
    (waiting : node.world.decided = before ++ queued :: after) :
    Durable setup
      { node with
        spool := node.spool ++ (spoolFormat.line queued ++ [10]), writing := some queued } := by
  refine ⟨durable.sound, durable.engine, durable.plain, ?_, fun notUp => absurd up notUp⟩
  intro _
  obtain ⟨lines, running⟩ := durable.up up
  refine ⟨lines ++ [queued], ?_, ?_, ?_, ?_, running.keeps⟩
  · simp [running.spool, Journal.render]
  · intro other member
    rcases List.mem_append.mp member with old | last
    · exact running.made other old
    · rw [List.mem_singleton.mp last]
      exact durable.sound.queue.decided queued (by simp [waiting])
  · exact fun other member => List.mem_append_left _ (running.pending other member)
  · intro other same
    cases same
    exact List.mem_append_right _ (List.mem_singleton_self _)

theorem Durable.unspooled (up : node.phase = .up)
    (waiting : node.world.decided = before ++ queued :: after) :
    Durable setup
      { node with
        world := { node.world with pdp := node.world.pdp.release, decided := before ++ after } } := by
  refine ⟨durable.sound.unspooled waiting, durable.engine, durable.plain, ?_,
    fun notUp => absurd up notUp⟩
  intro _
  obtain ⟨lines, running⟩ := durable.up up
  exact ⟨lines, running.spool, running.made, running.pending, running.writing, running.keeps⟩

theorem Durable.answer (up : node.phase = .up)
    (locked : node.writing = some queued)
    (waiting : node.world.decided = before ++ queued :: after) :
    Durable setup
      { node with
        world :=
          { node.world with
            pdp := node.world.pdp.enqueue queued
            decided := before ++ after
            answered := queued :: node.world.answered }
        writing := none } := by
  have sound := durable.sound.ending (Ending.answer before queued after waiting)
  refine ⟨sound, durable.engine, durable.plain, ?_, fun notUp => absurd up notUp⟩
  intro _
  obtain ⟨lines, running⟩ := durable.up up
  refine ⟨lines, running.spool, running.made, ?_, by simp, ?_⟩
  · intro other member
    rcases List.mem_append.mp member with old | last
    · exact running.pending other old
    · rw [List.mem_singleton.mp last]
      exact running.writing queued locked
  · refine List.forall_mem_cons.mpr ⟨.inr (.inr (List.mem_append_right _ (by simp))), ?_⟩
    intro other member
    rcases running.keeps other member with rejected | recorded | here
    · exact .inl rejected
    · exact .inr (.inl recorded)
    · exact .inr (.inr (List.mem_append_left _ here))

/-- The spool is replaced by what is pending. -/
theorem Durable.replace (keeps : node.world.Keeps setup node.world.pdp.pending)
    (unlocked : node.writing = none) :
    Durable setup
      { node with
        spool := Journal.render spoolFormat node.world.pdp.pending, phase := .up } := by
  refine ⟨durable.sound, durable.engine, durable.plain, ?_, fun notUp => absurd rfl notUp⟩
  intro _
  exact ⟨node.world.pdp.pending, rfl, durable.sound.queue.pending, fun _ => id,
    by simp [unlocked], keeps⟩

/-- After a crash the spool is loaded with everything it held. -/
theorem Durable.crashed {spool : Bytes} {loaded : List Queued}
    (loads : Journal.load spoolFormat spool = some loaded)
    (made : ∀ queued ∈ loaded, queued ∈ node.world.made) (keeps : node.world.Keeps setup loaded)
    {writing : Option Queued} :
    Durable setup ⟨node.world.crashed, .down, spool, writing⟩ := by
  refine ⟨durable.sound.crashed, ⟨[], rfl⟩, durable.plain, by simp, fun _ => ?_⟩
  exact ⟨loaded, loads, made, keeps, fun _ => rfl, by simp, rfl, rfl, rfl⟩

end

theorem World.Keeps.subset (keeps : w.Keeps setup kept) (subset : ∀ queued ∈ kept, queued ∈ kept') :
    w.Keeps setup kept' := by
  intro queued member
  rcases keeps queued member with rejected | recorded | here
  · exact .inl rejected
  · exact .inr (.inl recorded)
  · exact .inr (.inr (subset queued here))

theorem Durable.crash (durable : Durable setup node)
    (shallow : ∀ queued ∈ node.world.made, queued.Shallow) :
    Durable setup { node with world := node.world.crashed, phase := .down, writing := none } := by
  by_cases up : node.phase = .up
  · obtain ⟨lines, running⟩ := durable.up up
    have loads : Journal.load spoolFormat node.spool = some lines := by
      rw [running.spool]
      exact Journal.load_render spoolFormat_lawful fun queued member =>
        durable.readable shallow (running.made queued member)
    exact durable.crashed loads running.made (running.keeps.subset running.pending)
  · obtain ⟨loaded, stored⟩ := durable.down up
    exact durable.crashed stored.loads stored.made stored.keeps

theorem Durable.tear (durable : Durable setup node)
    (shallow : ∀ queued ∈ node.world.made, queued.Shallow) {torn : Bytes} (up : node.phase = .up)
    (waiting : node.world.decided = before ++ queued :: after)
    (part : torn <+: spoolFormat.line queued ++ [10]) :
    Durable setup
      { node with
        world := node.world.crashed, phase := .down, spool := node.spool ++ torn } := by
  obtain ⟨lines, running⟩ := durable.up up
  have readable : ∀ other ∈ lines, Readable other := fun other member =>
    durable.readable shallow (running.made other member)
  have known : queued ∈ node.world.made := durable.sound.queue.decided queued (by simp [waiting])
  have keeps := running.keeps.subset running.pending
  rw [running.spool]
  rcases Journal.load_render_torn spoolFormat_lawful readable (durable.readable shallow known) part with
    whole | added
  · exact durable.crashed whole running.made keeps
  refine durable.crashed added ?_ (keeps.subset fun _ => List.mem_append_left _)
  intro other member
  rcases List.mem_append.mp member with old | last
  · exact running.made other old
  · rw [List.mem_singleton.mp last]
    exact known

theorem Durable.read (durable : Durable setup node) (issuedAt : Int) (down : node.phase = .down)
    (loads : Journal.load spoolFormat node.spool = some pending) :
    Durable setup
      { node with world := node.world.restored pending issuedAt, phase := .restored } := by
  obtain ⟨loaded, stored⟩ := durable.down (by simp [down])
  obtain rfl : loaded = pending := Option.some.inj (stored.loads.symm.trans loads)
  have sound := durable.sound.restored stored.made issuedAt (by simp [stored.stopped])
  refine ⟨sound, durable.engine, durable.plain, by simp, fun _ => ?_⟩
  exact ⟨loaded, stored.loads, stored.made, stored.keeps, by simp,
    fun _ => by simp [World.restored, stored.empty down], stored.stopped, stored.noLoss,
    stored.uncapped⟩

theorem Durable.nodeStep (durable : Durable setup node)
    (shallow : ∀ queued ∈ node.world.made, queued.Shallow)
    (writing : node.phase ≠ .up → node.writing = none) (step : NodeStep setup node node') :
    Durable setup node' := by
  cases step with
  | step w up step => exact durable.step up step
  | server w step pdp syncing deciding decided flusher => exact durable.server step pdp flusher
  | write before queued after up unlocked waiting => exact durable.write up waiting
  | unspooled before queued after up unlocked waiting => exact durable.unspooled up waiting
  | answer before queued after up locked waiting => exact durable.answer up locked waiting
  | rewrite up unlocked =>
    obtain ⟨lines, running⟩ := durable.up up
    have replaced := durable.replace running.keeps unlocked
    rw [← up] at replaced
    exact replaced
  | crash => exact durable.crash shallow
  | tear before queued after torn up unlocked waiting marshals part =>
    exact durable.tear shallow up waiting part
  | read pending issuedAt down loaded => exact durable.read issuedAt down loaded
  | serve restored =>
    obtain ⟨loaded, stored⟩ := durable.down (by simp [restored])
    refine durable.replace ?_ (writing (by simp [restored]))
    rw [stored.pending restored]
    exact stored.keeps

variable {store : Store σ}

/-- The spool lock is held only while the agent is up. -/
theorem NodeReaches.writing (reaches : NodeReaches setup store node) (notUp : node.phase ≠ .up) :
    node.writing = none := by
  induction reaches with
  | start => rfl
  | step reaches step ih =>
  cases step with
  | step w up | write before queued after up
  | unspooled before queued after up => exact absurd up notUp
  | server => exact ih notUp
  | answer => rfl
  | rewrite up unlocked | tear before queued after torn up unlocked => exact unlocked
  | crash => rfl
  | read pending issuedAt down => exact ih (by simp [down])
  | serve => exact absurd rfl notUp

theorem NodeStep.made (step : NodeStep setup node node') :
    ∀ queued ∈ node.world.made, queued ∈ node'.world.made := by
  cases step with
  | step w up step | server w step => exact step.made
  | _ => exact fun _ => id

theorem NodeReaches.durable (reaches : NodeReaches setup store node)
    (shallow : ∀ queued ∈ node.world.made, queued.Shallow) : Durable setup node := by
  induction reaches with
  | start clock => exact .start store clock
  | step reaches step ih =>
    have before := fun queued member => shallow queued (step.made queued member)
    exact (ih before).nodeStep before reaches.writing step

end OmegaPlane.Agent
