import Mathlib.Data.List.Infix
import Mathlib.Data.List.TakeWhile
import Mathlib.Logic.Function.Basic
import OmegaPlane.Storage.Tables

/-!
# Forwarding the audit log

A pump reads the watermark of its forwarder, lists the rows after it, sends them
and, once the receiver has acknowledged them, writes the number of the last one
as the new watermark.  Pumps of several replicas may overlap, every step may
fail or be the last before a crash, and the watermark is overwritten without a
comparison, so it may go back.  It never covers a row that was not acknowledged.
-/

namespace OmegaPlane.Storage.Forwarding

open Audit

/-! ## Pumps -/

/-- Rows with a number above `since`, oldest first. -/
def listAudit (log : AuditLog) (since limit : Int) : List AuditEvent :=
  let limit := if limit ≤ 0 then 100 else if 1000 < limit then 1000 else limit
  (log.rows.filter fun row => since < row.seq).take limit.toNat

/-- Where a tick of a pump stands. -/
inductive Stage where
  | idle
  | read (since : Int)
  | listed (since : Int) (events : List AuditEvent)
  | delivered (events : List AuditEvent)

/-- A pump of a replica, for the forwarder with this name. -/
structure Pump where
  name : Bytes
  batchSize : Int
  stage : Stage

/-- The stored watermarks by forwarder. -/
abbrev Watermarks := Table (Prod.fst : Bytes × Int → Bytes)

structure World where
  log : AuditTable
  watermarks : Watermarks
  /-- The batches the receiver of a forwarder has acknowledged. -/
  acknowledged : Bytes → List (List AuditEvent)
  pumps : Nat → Pump

/-- The watermark of a forwarder, zero where none is stored. -/
def auditForwardSeq (watermarks : Watermarks) (name : Bytes) : Option Int :=
  if name = [] then none else some (((watermarks.lookup name).map Prod.snd).getD 0)

/-- Overwrite the watermark of a forwarder. -/
def setAuditForwardSeq (watermarks : Watermarks) (name : Bytes) (seq : Int) : Watermarks :=
  if name = [] ∨ seq < 0 then watermarks else watermarks.put (name, seq)

def lastSeq (events : List AuditEvent) : Int :=
  ((events.getLast?).map AuditEvent.seq).getD 0

namespace World

def setStage (world : World) (pump : Nat) (stage : Stage) : World :=
  { world with pumps := Function.update world.pumps pump { world.pumps pump with stage } }

end World

/-- What can happen.  A tick that finds no leader, or whose query fails, ends; a
batch may be acknowledged without the pump learning it, and a watermark may be
written without the pump learning it. -/
inductive Event where
  | append (gap : Nat) (row : AuditEvent)
  | readSeq (pump : Nat)
  | list (pump : Nat)
  | forward (pump : Nat) (accepted answered : Bool)
  | setSeq (pump : Nat) (applied : Bool)
  | stop (pump : Nat)

def step (world : World) : Event → World
  | .append gap row => { world with log := (world.log.insert gap row).2 }
  | .readSeq pump =>
    match (world.pumps pump).stage, auditForwardSeq world.watermarks (world.pumps pump).name with
    | .idle, some since => world.setStage pump (.read since)
    | _, _ => world
  | .list pump =>
    match (world.pumps pump).stage with
    | .read since =>
      match listAudit world.log.toAuditLog since (world.pumps pump).batchSize with
      | [] => world.setStage pump .idle
      | first :: rest => world.setStage pump (.listed since (first :: rest))
    | _ => world
  | .forward pump accepted answered =>
    match (world.pumps pump).stage with
    | .listed _ events =>
      let name := (world.pumps pump).name
      let acknowledged :=
        if accepted then
          Function.update world.acknowledged name (world.acknowledged name ++ [events])
        else world.acknowledged
      { world with acknowledged }.setStage pump
        (if accepted && answered then .delivered events else .idle)
    | _ => world
  | .setSeq pump applied =>
    match (world.pumps pump).stage with
    | .delivered events =>
      let name := (world.pumps pump).name
      let watermarks :=
        if applied then setAuditForwardSeq world.watermarks name (lastSeq events)
        else world.watermarks
      { world with watermarks }.setStage pump .idle
    | _ => world
  | .stop pump => world.setStage pump .idle

def run (world : World) (events : List Event) : World :=
  events.foldl step world

/-! ## What is covered -/

/-- Every row up to a number has been acknowledged, and no later row will get a
number up to it. -/
def Covered (world : World) (name : Bytes) (seq : Int) : Prop :=
  seq < world.log.nextSeq ∧ ∀ row ∈ world.log.rows, row.seq ≤ seq →
    ∃ batch ∈ world.acknowledged name, row ∈ batch

/-- The events are consecutive rows, and every row before them has a number up to
`since`. -/
def Consecutive (world : World) (since : Int) (events : List AuditEvent) : Prop :=
  ∃ before after, world.log.rows = before ++ events ++ after ∧ ∀ row ∈ before, row.seq ≤ since

/-- What the stage of a tick rests on. -/
def Grounded (world : World) (name : Bytes) : Stage → Prop
  | .idle => True
  | .read since => Covered world name since
  | .listed since events =>
    Covered world name since ∧ Consecutive world since events ∧ events ≠ []
  | .delivered events => Covered world name (lastSeq events)

structure Sound (world : World) : Prop where
  watermarks : ∀ name seq, world.watermarks.lookup name = some (name, seq) → Covered world name seq
  batches : ∀ name, ∀ batch ∈ world.acknowledged name, batch <:+: world.log.rows
  pumps : ∀ pump, Grounded world (world.pumps pump).name (world.pumps pump).stage

variable {since : Int} {world later : World}

/-- In an ordered log the rows above a number are a suffix. -/
theorem filter_eq_dropWhile {rows : List AuditEvent}
    (ordered : rows.Pairwise fun earlier later => earlier.seq < later.seq) :
    rows.filter (fun row => since < row.seq) = rows.dropWhile fun row => row.seq ≤ since := by
  induction rows with
  | nil => rfl
  | cons row rest ih =>
  obtain ⟨above, orderedRest⟩ := List.pairwise_cons.mp ordered
  by_cases low : row.seq ≤ since
  · rw [List.filter_cons_of_neg (by simpa using low), List.dropWhile_cons_of_pos (by simpa using low),
      ih orderedRest]
  have all : ∀ other ∈ row :: rest, decide (since < other.seq) = true := by
    intro other member
    rcases List.mem_cons.mp member with rfl | member
    · simpa using low
    · have := above other member
      simp only [decide_eq_true_eq]
      omega
  rw [List.filter_eq_self.mpr all, List.dropWhile_cons_of_neg (by simpa using low)]

/-- A list is a run of rows that starts right after `since`. -/
theorem consecutive_listAudit (world : World) (since limit : Int) :
    Consecutive world since (listAudit world.log.toAuditLog since limit) := by
  unfold listAudit
  dsimp only
  rw [filter_eq_dropWhile world.log.ordered]
  set low := fun row : AuditEvent => decide (row.seq ≤ since) with isLow
  set count := (if limit ≤ 0 then (100 : Int) else if 1000 < limit then 1000 else limit).toNat
  refine ⟨world.log.rows.takeWhile low, (world.log.rows.dropWhile low).drop count, ?_, ?_⟩
  · rw [List.append_assoc, List.take_append_drop, List.takeWhile_append_dropWhile]
  · intro row member
    simpa [isLow] using List.mem_takeWhile_imp member

/-- A later world: rows were appended and batches acknowledged. -/
structure Grown (world later : World) : Prop where
  rows : ∃ new, later.log.rows = world.log.rows ++ new ∧ ∀ row ∈ new, world.log.nextSeq ≤ row.seq
  nextSeq : world.log.nextSeq ≤ later.log.nextSeq
  acknowledged : ∀ name, world.acknowledged name ⊆ later.acknowledged name

variable {name : Bytes} {events : List AuditEvent} {stage : Stage} {pump : Nat}

theorem Covered.grown {seq : Int} (covered : Covered world name seq) (grown : Grown world later) :
    Covered later name seq := by
  obtain ⟨new, rows, fresh⟩ := grown.rows
  refine ⟨covered.1.trans_le grown.nextSeq, fun row member low => ?_⟩
  rw [rows] at member
  rcases List.mem_append.mp member with old | isNew
  · obtain ⟨batch, sent, inBatch⟩ := covered.2 row old low
    exact ⟨batch, grown.acknowledged name sent, inBatch⟩
  · have above := fresh row isNew
    have below := covered.1
    omega

theorem Consecutive.grown (consecutive : Consecutive world since events)
    (grown : Grown world later) : Consecutive later since events := by
  obtain ⟨before, after, split, low⟩ := consecutive
  obtain ⟨new, rows, -⟩ := grown.rows
  exact ⟨before, after ++ new, by rw [rows, split, List.append_assoc _ after], low⟩

theorem Grounded.grown (grounded : Grounded world name stage) (grown : Grown world later) :
    Grounded later name stage := by
  cases stage with
  | idle => trivial
  | read | delivered => exact Covered.grown grounded grown
  | listed => exact ⟨grounded.1.grown grown, grounded.2.1.grown grown, grounded.2.2⟩

theorem Grown.setStage (world : World) (pump : Nat) (stage : Stage) :
    Grown world (world.setStage pump stage) :=
  ⟨⟨[], by simp [World.setStage], by simp⟩, le_rfl, fun _ => List.Subset.refl _⟩

/-- A step that lets the world grow, and sets the stage of at most one pump to
something grounded. -/
theorem Sound.setStage (sound : Sound world) (grown : Grown world later)
    (pumps : later.pumps = world.pumps)
    (batches : ∀ name, ∀ batch ∈ later.acknowledged name, batch <:+: later.log.rows)
    (watermarks : ∀ name seq, later.watermarks.lookup name = some (name, seq) →
      Covered later name seq) (grounded : Grounded later (world.pumps pump).name stage) :
    Sound (later.setStage pump stage) := by
  refine ⟨watermarks, batches, fun other => ?_⟩
  by_cases same : other = pump
  · subst same
    have isPump : (later.setStage other stage).pumps other = { world.pumps other with stage } := by
      simp [World.setStage, pumps]
    rw [isPump]
    exact grounded.grown (.setStage later other stage)
  · have isPump : (later.setStage pump stage).pumps other = world.pumps other := by
      simp [World.setStage, same, pumps]
    rw [isPump]
    exact ((sound.pumps other).grown grown).grown (.setStage later pump stage)

theorem Grown.refl (world : World) : Grown world world :=
  ⟨⟨[], by simp, by simp⟩, le_rfl, fun _ => List.Subset.refl _⟩

theorem Sound.setStage_only (sound : Sound world)
    (grounded : Grounded world (world.pumps pump).name stage) :
    Sound (world.setStage pump stage) :=
  sound.setStage (.refl world) rfl sound.batches sound.watermarks grounded

/-- Appending leaves every run of rows a run of rows, and covers stay covers. -/
theorem Sound.append (sound : Sound world) (gap : Nat) (row : AuditEvent) :
    Sound { world with log := (world.log.insert gap row).2 } := by
  have grown : Grown world { world with log := (world.log.insert gap row).2 } := by
    refine ⟨⟨[{ row with seq := world.log.nextSeq + gap }], rfl, ?_⟩, ?_, fun _ => List.Subset.refl _⟩
    · intro added member
      rw [List.mem_singleton.mp member]
      simp
    · simp only [AuditTable.insert]
      omega
  refine ⟨fun name seq stored => (sound.watermarks name seq stored).grown grown, ?_,
    fun pump => (sound.pumps pump).grown grown⟩
  intro name batch sent
  exact (sound.batches name batch sent).trans (List.prefix_append _ _).isInfix

/-- What a tick reads is covered: a stored watermark is, and zero is because
numbers start above it. -/
theorem Sound.covered_of_read (sound : Sound world)
    (read : auditForwardSeq world.watermarks name = some since) : Covered world name since := by
  unfold auditForwardSeq at read
  split_ifs at read
  have isSince := Option.some.inj read
  cases stored : world.watermarks.lookup name with
  | none =>
    rw [stored] at isSince
    obtain rfl : 0 = since := isSince
    refine ⟨world.log.started, fun row member low => ?_⟩
    have positive := (world.log.assigned row member).1
    omega
  | some entry =>
    rw [stored] at isSince
    obtain rfl : entry.2 = since := isSince
    have named : entry.1 = name := (Table.lookup_eq_some_iff.mp stored).2
    exact sound.watermarks name entry.2 (by rw [stored, ← named])

/-- Once a run of rows right after a covered number is acknowledged, its last
number is covered. -/
theorem covered_lastSeq (covered : Covered world name since)
    (consecutive : Consecutive world since events) (grown : Grown world later)
    (log : later.log = world.log) (sent : events ∈ later.acknowledged name) (some : events ≠ []) :
    Covered later name (lastSeq events) := by
  obtain ⟨before, after, split, low⟩ := consecutive
  obtain ⟨init, last, rfl⟩ : ∃ init last, events = init ++ [last] :=
    ⟨events.dropLast, events.getLast some, (List.dropLast_append_getLast some).symm⟩
  have isLast : lastSeq (init ++ [last]) = last.seq := by simp [lastSeq]
  have member : last ∈ world.log.rows := by
    rw [split]
    simp
  rw [isLast]
  refine ⟨log ▸ (world.log.assigned last member).2, fun row inLog atMost => ?_⟩
  rw [log, split] at inLog
  rcases List.mem_append.mp inLog with early | late
  · rcases List.mem_append.mp early with old | inBatch
    · obtain ⟨batch, acknowledged, inBatch⟩ :=
        covered.2 row (by rw [split]; simp [old]) (low row old)
      exact ⟨batch, grown.acknowledged name acknowledged, inBatch⟩
    · exact ⟨_, sent, inBatch⟩
  · have above := (List.pairwise_append.mp (split ▸ world.log.ordered)).2.2 last (by simp) row late
    omega

/-- The receiver acknowledges a batch. -/
theorem Sound.acknowledge (sound : Sound world)
    (covered : Covered world (world.pumps pump).name since)
    (consecutive : Consecutive world since events) (some : events ≠ []) (answered : Bool) :
    Sound (World.setStage
      { world with
        acknowledged := Function.update world.acknowledged (world.pumps pump).name
          (world.acknowledged (world.pumps pump).name ++ [events]) }
      pump (if answered then .delivered events else .idle)) := by
  set later : World := { world with
    acknowledged := Function.update world.acknowledged (world.pumps pump).name
      (world.acknowledged (world.pumps pump).name ++ [events]) } with isLater
  have batches : ∀ name batch, batch ∈ later.acknowledged name →
      batch ∈ world.acknowledged name ∨ name = (world.pumps pump).name ∧ batch = events := by
    intro name batch sent
    by_cases same : name = (world.pumps pump).name
    · rw [same] at sent ⊢
      simpa [isLater] using sent
    · exact .inl (by simpa [isLater, same] using sent)
  have grown : Grown world later := by
    refine ⟨⟨[], by simp [isLater], by simp⟩, le_rfl, fun name batch sent => ?_⟩
    by_cases same : name = (world.pumps pump).name
    · rw [same] at sent ⊢
      simp [isLater, sent]
    · simpa [isLater, same] using sent
  have sent : events ∈ later.acknowledged (world.pumps pump).name := by
    simp [isLater]
  apply sound.setStage grown rfl
  · intro name batch received
    rcases batches name batch received with old | ⟨-, rfl⟩
    · exact sound.batches name batch old
    · obtain ⟨before, after, split, -⟩ := consecutive
      exact ⟨before, after, split.symm⟩
  · exact fun name seq stored => (sound.watermarks name seq stored).grown grown
  · cases answered with
    | false => trivial
    | true => exact covered_lastSeq covered consecutive grown rfl sent some

/-- The watermark is written. -/
theorem Sound.write (sound : Sound world)
    (covered : Covered world (world.pumps pump).name (lastSeq events)) :
    Sound (World.setStage
      { world with
        watermarks := setAuditForwardSeq world.watermarks (world.pumps pump).name (lastSeq events) }
      pump .idle) := by
  set later : World := { world with
    watermarks := setAuditForwardSeq world.watermarks (world.pumps pump).name (lastSeq events) }
    with isLater
  have grown : Grown world later :=
    ⟨⟨[], by simp [isLater], by simp⟩, le_rfl, fun _ => List.Subset.refl _⟩
  refine sound.setStage grown rfl sound.batches ?_ trivial
  intro name seq stored
  simp only [isLater, setAuditForwardSeq] at stored
  split_ifs at stored
  · exact sound.watermarks name seq stored
  rw [Table.lookup_put] at stored
  split_ifs at stored with same
  · cases same
    cases stored
    exact covered
  · exact sound.watermarks name seq stored

theorem Sound.step (sound : Sound world) (event : Event) : Sound (step world event) := by
  cases event with
  | append gap row => exact sound.append gap row
  | readSeq =>
    dsimp only [Forwarding.step]
    split
    next since _ read => exact sound.setStage_only (sound.covered_of_read read)
    · exact sound
  | list pump =>
    dsimp only [Forwarding.step]
    split
    next since isStage =>
      have covered : Covered world (world.pumps pump).name since := by
        have grounded := sound.pumps pump
        rwa [isStage] at grounded
      have consecutive := consecutive_listAudit world since (world.pumps pump).batchSize
      split
      · exact sound.setStage_only trivial
      next listed =>
        rw [listed] at consecutive
        exact sound.setStage_only ⟨covered, consecutive, nofun⟩
    · exact sound
  | forward pump accepted answered =>
    dsimp only [Forwarding.step]
    split
    next since events isStage =>
      obtain ⟨covered, consecutive, some⟩ : Covered world (world.pumps pump).name since ∧
          Consecutive world since events ∧ events ≠ [] := by
        have grounded := sound.pumps pump
        rwa [isStage] at grounded
      cases accepted with
      | false => exact sound.setStage_only trivial
      | true => exact sound.acknowledge covered consecutive some answered
    · exact sound
  | setSeq pump applied =>
    dsimp only [Forwarding.step]
    split
    next events isStage =>
      have covered : Covered world (world.pumps pump).name (lastSeq events) := by
        have grounded := sound.pumps pump
        rwa [isStage] at grounded
      cases applied with
      | false => exact sound.setStage_only trivial
      | true => exact sound.write covered
    · exact sound
  | stop => exact sound.setStage_only trivial

theorem Sound.run (sound : Sound world) (events : List Event) : Sound (run world events) := by
  induction events generalizing world with
  | nil => exact sound
  | cons event events ih => exact ih (sound.step event)

/-- Nothing has been forwarded yet. -/
structure Starting (world : World) : Prop where
  watermarks : ∀ name, world.watermarks.lookup name = none
  acknowledged : ∀ name, world.acknowledged name = []
  pumps : ∀ pump, (world.pumps pump).stage = .idle

theorem Starting.sound (starting : Starting world) : Sound world := by
  refine ⟨?_, ?_, fun pump => ?_⟩
  · intro name seq stored
    rw [starting.watermarks name] at stored
    cases stored
  · intro name batch sent
    rw [starting.acknowledged name] at sent
    cases sent
  · rw [starting.pumps pump]
    trivial

/-- Whatever interleaves and fails, a stored watermark stands only above rows that
were acknowledged, and what was acknowledged are runs of consecutive rows. -/
theorem forwarding_loses_nothing {start : World} (starting : Starting start)
    (events : List Event) :
    (∀ name seq, (run start events).watermarks.lookup name = some (name, seq) →
      ∀ row ∈ (run start events).log.rows, row.seq ≤ seq →
        ∃ batch ∈ (run start events).acknowledged name, row ∈ batch) ∧
    ∀ name, ∀ batch ∈ (run start events).acknowledged name,
      batch <:+: (run start events).log.rows := by
  have sound := starting.sound.run events
  exact ⟨fun name seq stored => (sound.watermarks name seq stored).2, sound.batches⟩

/-- Two replicas that forward to the same receiver, one row at a time. -/
def twoPumps : World where
  log := .empty
  watermarks := .empty
  acknowledged := fun _ => []
  pumps := fun _ => ⟨ascii "webhook", 1, .idle⟩

def plainRow : AuditEvent := ⟨0, 0, ascii "svid.issue", [], [], ascii "ok", [], [], [], []⟩

/-- Two rows; the second pump forwards both while the first is between its list
and its write, so the watermark goes back. -/
def overlapping : List Event :=
  [.append 0 plainRow, .append 0 plainRow, .readSeq 0, .list 0, .forward 0 true true, .readSeq 1,
    .list 1, .forward 1 true true, .setSeq 1 true, .readSeq 1, .list 1, .forward 1 true true, .setSeq 1 true,
    .setSeq 0 true]

theorem forwarding_overlapping :
    (run twoPumps overlapping).watermarks.lookup (ascii "webhook") = some (ascii "webhook", 1) ∧
    ∀ row ∈ (run twoPumps overlapping).log.rows, row.seq ≤ 1 →
      ∃ batch ∈ (run twoPumps overlapping).acknowledged (ascii "webhook"), row ∈ batch := by
  have starting : Starting twoPumps := ⟨fun _ => rfl, fun _ => rfl, fun _ => rfl⟩
  have stored : (run twoPumps overlapping).watermarks.lookup (ascii "webhook") =
      some (ascii "webhook", 1) := by
    decide
  exact ⟨stored, (forwarding_loses_nothing starting overlapping).1 _ _ stored⟩

end OmegaPlane.Storage.Forwarding
