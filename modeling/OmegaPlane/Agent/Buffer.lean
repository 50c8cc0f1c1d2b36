import OmegaPlane.Agent.Freshness

/-!
# The buffer of decisions

Every evaluation takes a slot of the buffer before it decides, and gives it back or fills
it with its decision.  Calls of `evaluate`, `Flush` and `Sync` are interleaved between their
critical sections; a flush on its own ends whatever it is answered.
-/

namespace OmegaPlane.Agent

open Decision

/-! ## Interleaved calls -/

/-- Where a call of `evaluate` stands. -/
inductive Stage where
  | entered (call : EvalCall)
  | deciding (call : EvalCall)
  | decided (response : EvalResponse) (queued : Queued)
  /-- An error is returned once the deferred function has given the slot back. -/
  | failing (err : EvalError)
  | returned (result : Except EvalError EvalResponse)

/-- The call has counted itself in `reserved` and not yet out of it. -/
def Stage.holds : Stage → Bool
  | .deciding _ | .decided _ _ | .failing _ => true
  | .entered _ | .returned _ => false

/-- A decision point with its calls.  `Run` makes one flush and one sync at a time; here
any number may run. -/
structure Buffer where
  pdp : PDP
  calls : List Stage
  /-- The reports that wait for an answer. -/
  flying : List Report
  /-- The bundles put into the engine and not stamped yet. -/
  syncing : List Bundle

/-- The call moves on from one stage to another. -/
def Buffer.move (b : Buffer) (pdp : PDP) (before : List Stage) (stage : Stage)
    (after : List Stage) : Buffer :=
  { b with pdp, calls := before ++ stage :: after }

variable (sha256 : Bytes → Bytes) (policy : Policy) (config : Config)
  (marshal : LocalDecision → Option Bytes)

inductive Buffer.Step : Buffer → Buffer → Prop where
  | enter {b : Buffer} (call : EvalCall) : Step b { b with calls := .entered call :: b.calls }
  | reserve {b : Buffer} {before after : List Stage} {call : EvalCall} {pdp : PDP}
      (standing : b.calls = before ++ .entered call :: after)
      (reserved : b.pdp.reserve config call.now = .ok pdp) :
      Step b (b.move pdp before (.deciding call) after)
  | refuse {b : Buffer} {before after : List Stage} {call : EvalCall} {err : EvalError}
      (standing : b.calls = before ++ .entered call :: after)
      (refused : b.pdp.reserve config call.now = .error err) :
      Step b (b.move b.pdp before (.returned (.error err)) after)
  | decide {b : Buffer} {before after : List Stage} {call : EvalCall} {response : EvalResponse}
      {queued : Queued} (standing : b.calls = before ++ .deciding call :: after)
      (decided : call.decide policy marshal b.pdp.bundle = .ok (response, queued)) :
      Step b (b.move b.pdp before (.decided response queued) after)
  | fail {b : Buffer} {before after : List Stage} {call : EvalCall} {err : EvalError}
      (standing : b.calls = before ++ .deciding call :: after)
      (failed : call.decide policy marshal b.pdp.bundle = .error err) :
      Step b (b.move b.pdp before (.failing err) after)
  /-- The spool is not open or cannot be written. -/
  | unspooled {b : Buffer} {before after : List Stage} {response : EvalResponse} {queued : Queued}
      (standing : b.calls = before ++ .decided response queued :: after)
      (spooling : config.spooling = true) :
      Step b (b.move b.pdp before (.failing .spool) after)
  | enqueue {b : Buffer} {before after : List Stage} {response : EvalResponse} {queued : Queued}
      (standing : b.calls = before ++ .decided response queued :: after) :
      Step b (b.move (b.pdp.enqueue queued) before (.returned (.ok response)) after)
  | release {b : Buffer} {before after : List Stage} {err : EvalError}
      (standing : b.calls = before ++ .failing err :: after) :
      Step b (b.move b.pdp.release before (.returned (.error err)) after)
  | load {b : Buffer} (bundle : Bundle) (clock : SyncReadings)
      (checked : b.pdp.checkBundle sha256 policy config bundle clock = .ok ())
      (revision : bundle.revision = bundleRevision sha256 bundle)
      (loads : policy.loads bundle = true) :
      Step b { b with pdp := b.pdp.loadBundle bundle, syncing := bundle :: b.syncing }
  | stamp {b : Buffer} {before after : List Bundle} {bundle : Bundle} (mark synced : Int)
      (loaded : b.syncing = before ++ bundle :: after) :
      Step b { b with pdp := b.pdp.stamp bundle mark synced, syncing := before ++ after }
  | notModified {b : Buffer} (synced : Int) (unkeyed : config.bundleKey = false) :
      Step b { b with pdp := { b.pdp with synced := synced } }
  | send {b : Buffer} (report : Report) (reported : b.pdp.report = some report) :
      Step b { b with flying := report :: b.flying }
  | lose {b : Buffer} {before after : List Report} {report : Report}
      (sent : b.flying = before ++ report :: after) :
      Step b { b with flying := before ++ after }
  | answer {b : Buffer} {before after : List Report} {report : Report}
      (sent : b.flying = before ++ report :: after) (response : Response) (decoded : Bool)
      (handling : Handling) :
      Step b
        { b with
          pdp := (b.pdp.respondTo sha256 report response decoded handling).1
          flying := before ++ after }

/-- A decision point as `RestoreSpool` leaves it: the decisions of the spool are queued, and
the mark of the newest bundle is the one that was saved. -/
def Buffer.restored (decisions : List Queued) (issuedAt : Int) : Buffer where
  pdp := { PDP.new with pending := decisions, issuedAt }
  calls := []
  flying := []
  syncing := []

/-! ## The bound -/

/-- Slots are counted, and no more are taken than there are. -/
structure Buffer.Counted (b : Buffer) (size : Nat) : Prop where
  reserved : b.pdp.reserved = b.calls.countP Stage.holds
  within : b.pdp.pending.length + b.pdp.reserved ≤ size

variable {sha256 policy config marshal}

/-- An answer leaves the slots alone and adds nothing to the queue. -/
theorem PDP.respondTo_slots (pdp : PDP) (report : Report) (response : Response) (decoded : Bool)
    (handling : Handling) :
    (pdp.respondTo sha256 report response decoded handling).1.reserved = pdp.reserved ∧
    (pdp.respondTo sha256 report response decoded handling).1.pending.length ≤
      pdp.pending.length := by
  have responded := pdp.respondTo_responded sha256 report response decoded handling
  generalize pdp.respondTo sha256 report response decoded handling = result at responded ⊢
  have shorter (count : Nat) : (pdp.pending.drop count).length ≤ pdp.pending.length := by simp
  cases responded with
  | accepted | kept | counted | halved => exact ⟨rfl, shorter _⟩
  | dropped =>
  unfold PDP.dropFirst
  split
  · exact ⟨rfl, shorter _⟩
  · refine ⟨rfl, ?_⟩
    simp only [PDP.remove, List.length_drop]
    omega

variable {b : Buffer} {size : Nat} {pdp : PDP}

variable {before after : List Stage}

/-- A call moves on, and the slots are counted with it. -/
theorem Buffer.Counted.move (counted : b.Counted size) {old new : Stage}
    (standing : b.calls = before ++ old :: after)
    (slots : pdp.reserved + old.holds.toNat = b.pdp.reserved + new.holds.toNat)
    (within : pdp.pending.length + pdp.reserved ≤ size) :
    (b.move pdp before new after).Counted size where
  reserved := by
    have reserved := counted.reserved
    have toNat (stage : Stage) : stage.holds.toNat = if stage.holds then 1 else 0 := by
      cases stage.holds <;> rfl
    rw [standing, List.countP_append, List.countP_cons] at reserved
    simp only [Buffer.move, List.countP_append, List.countP_cons]
    rw [toNat, toNat] at slots
    omega
  within := within

/-- A held slot is one of those counted. -/
theorem Buffer.Counted.pos (counted : b.Counted size) {stage : Stage}
    (standing : b.calls = before ++ stage :: after) (holds : stage.holds = true) :
    0 < b.pdp.reserved := by
  rw [counted.reserved, List.countP_pos_iff]
  exact ⟨stage, by simp [standing], holds⟩

theorem Buffer.Step.counted {b' : Buffer} (step : Step sha256 policy config marshal b b')
    (large : config.bufferSize ≤ size) (counted : b.Counted size) :
    b'.Counted size := by
  have within := counted.within
  cases step with
  | enter => exact { counted with reserved := by simpa [Stage.holds] using counted.reserved }
  | reserve standing reserved =>
    simp only [PDP.reserve, ite_error_eq_ok, Except.ok.injEq] at reserved
    obtain ⟨-, room, rfl⟩ := reserved
    refine counted.move standing rfl ?_
    dsimp only
    omega
  | refuse standing | decide standing | fail standing
  | unspooled standing => exact counted.move standing rfl within
  | enqueue standing =>
    have held := counted.pos standing rfl
    refine counted.move standing (Nat.sub_add_cancel held) ?_
    simp only [PDP.enqueue, List.length_append, List.length_singleton]
    omega
  | release standing =>
    have held := counted.pos standing rfl
    refine counted.move standing (Nat.sub_add_cancel held) ?_
    simp only [PDP.release]
    omega
  | load | stamp | notModified | send | lose => exact ⟨counted.reserved, within⟩
  | answer sent response decoded handling =>
    obtain ⟨reserved, shorter⟩ :=
      @PDP.respondTo_slots sha256 b.pdp _ response decoded handling
    refine ⟨reserved.trans counted.reserved, ?_⟩
    dsimp only
    omega

/-- Never more decisions wait or are being made than the buffer is for or the spool held. -/
theorem buffer_bounded {decisions : List Queued} {issuedAt : Int} {b : Buffer}
    (run : Relation.ReflTransGen (Buffer.Step sha256 policy config marshal)
      (Buffer.restored decisions issuedAt) b) :
    b.pdp.reserved = b.calls.countP Stage.holds ∧
    b.pdp.pending.length + b.pdp.reserved ≤ max config.bufferSize decisions.length := by
  have counted : b.Counted (max config.bufferSize decisions.length) := by
    induction run with
    | refl => exact ⟨rfl, by simp [Buffer.restored, PDP.new]⟩
    | tail run step ih => exact step.counted (le_max_left _ _) ih
  exact ⟨counted.reserved, counted.within⟩

/-- A buffer for one decision and no signing key. -/
def sampleSingle : Config :=
  ⟨Clock.minute, 1, [], false, false⟩

/-- One call holds the only slot and another one is refused. -/
def sampleFull : Buffer where
  pdp := { PDP.new with synced := 5, reserved := 1 }
  calls := [.returned (.error (.full 1)), .deciding (sampleCall 5)]
  flying := []
  syncing := []

theorem buffer_bounded_full :
    Relation.ReflTransGen (Buffer.Step Crypto.Sha256.sum samplePolicy sampleSingle fun _ => none)
      (Buffer.restored [] Clock.zeroInstant) sampleFull ∧
    sampleFull.pdp.pending.length + sampleFull.pdp.reserved ≤ max sampleSingle.bufferSize 0 := by
  have run : Relation.ReflTransGen
      (Buffer.Step Crypto.Sha256.sum samplePolicy sampleSingle fun _ => none)
      (Buffer.restored [] Clock.zeroInstant) sampleFull :=
    .tail (.tail (.tail (.tail (.single (.notModified 5 rfl)) (.enter (sampleCall 5)))
        (@Buffer.Step.reserve _ _ _ _ _ [] [] _ _ rfl rfl)) (.enter (sampleCall 5)))
      (@Buffer.Step.refuse _ _ _ _ _ [] [.deciding (sampleCall 5)] _ _ rfl rfl)
  exact ⟨run, (buffer_bounded run).2⟩

/-! ## A flush on its own -/

/-- What comes of a request. -/
inductive Exchange where
  /-- It could not be made, or its answer did not come. -/
  | failed
  | answered (response : Response) (decoded : Bool) (handling : Handling)

inductive FlushError where
  | failed
  | status (code : Nat)
  deriving DecidableEq

/-- `flush` while nothing else runs.  Its requests are the next ones of the sequence, at
most `fuel` of them; it has not returned when they do not suffice. -/
def PDP.flush (sha256 : Bytes → Bytes) (exchanges : Nat → Exchange) :
    Nat → Nat → PDP → Option (Except FlushError Unit × PDP)
  | made, fuel, pdp =>
    match pdp.report with
    | none => some (.ok (), pdp)
    | some report =>
      match fuel with
      | 0 => none
      | fuel + 1 =>
        match exchanges made with
        | .failed => some (.error .failed, pdp)
        | .answered response decoded handling =>
          let handled := pdp.respondTo sha256 report response decoded handling
          if handled.2 then PDP.flush sha256 exchanges (made + 1) fuel handled.1
          else some (.error (.status response.status), handled.1)

/-- How many decisions a batch may have. -/
def PDP.limit (pdp : PDP) : Nat :=
  if 0 < pdp.batchCap then pdp.batchCap else maxBatchDecisions

/-- What every request of a flush lowers.  A drop makes a loss to report and a batch of any
size, and so does an accepted batch; a decision outweighs both. -/
def PDP.weight (most : Nat) (pdp : PDP) : Nat :=
  pdp.pending.length * (2 * most + 2) + (if pdp.droppedIDs = [] then 0 else most + 1) + pdp.limit

theorem takeBatch_ne_nil {limit : Nat} (some : 0 < limit) (first : Queued) (rest : List Queued) :
    takeBatch first.revision limit 0 (first :: rest) ≠ [] := by
  obtain ⟨limit, rfl⟩ := Nat.exists_eq_succ_of_ne_zero some.ne'
  simp

theorem PDP.limit_pos (pdp : PDP) : 0 < pdp.limit := by
  unfold PDP.limit
  split
  · assumption
  · decide

variable {report : Report}

/-- Unless it is a loss, a report has a decision and at most the limit. -/
theorem PDP.batch_of_report (reported : pdp.report = some report) (noLoss : pdp.droppedIDs = []) :
    report.batch ≠ [] ∧ report.batch.length ≤ pdp.limit := by
  unfold PDP.report at reported
  split at reported
  · contradiction
  rename_i waiting
  obtain rfl := Option.some.inj reported
  refine ⟨?_, takeBatch_length_le _ _ _ _⟩
  cases isPending : pdp.pending with
  | nil => exact absurd ⟨isPending, noLoss⟩ waiting
  | cons first rest => exact takeBatch_ne_nil pdp.limit_pos first rest

theorem PDP.weight_lt_of_length_lt {after : PDP} {most : Nat}
    (fewer : after.pending.length < pdp.pending.length) (limited : after.limit ≤ most) :
    after.weight most < pdp.weight most := by
  have decisions : (after.pending.length + 1) * (2 * most + 2) ≤
      pdp.pending.length * (2 * most + 2) := Nat.mul_le_mul_right _ fewer
  have losses : (if after.droppedIDs = [] then 0 else most + 1) ≤ most + 1 := by
    split <;> omega
  have positive := pdp.limit_pos
  rw [Nat.succ_mul] at decisions
  unfold PDP.weight
  omega

/-- A flush goes on only with less to do. -/
theorem PDP.respondTo_weight (reported : pdp.report = some report) {most : Nat}
    (top : maxBatchDecisions ≤ most) (limited : pdp.limit ≤ most) (response : Response)
    (decoded : Bool) (handling : Handling)
    (again : (pdp.respondTo sha256 report response decoded handling).2 = true) :
    (pdp.respondTo sha256 report response decoded handling).1.limit ≤ most ∧
    (pdp.respondTo sha256 report response decoded handling).1.weight most < pdp.weight most := by
  have reports := PDP.reports_of_report reported
  have shorter := reports.batch.length_le
  have taken : report.taken response decoded ≤ report.partly response := by
    unfold Report.taken
    split <;> omega
  have responded := pdp.respondTo_responded sha256 report response decoded handling
  generalize pdp.respondTo sha256 report response decoded handling = result at responded again ⊢
  cases responded with
  | accepted =>
    have limit : (pdp.accepted report).limit = maxBatchDecisions := rfl
    refine ⟨top, ?_⟩
    by_cases loss : pdp.droppedIDs = []
    · have some := List.length_pos_iff.mpr (PDP.batch_of_report reported loss).1
      refine PDP.weight_lt_of_length_lt ?_ top
      simp only [PDP.accepted, PDP.remove, List.length_drop]
      omega
    · -- the loss went out alone and is forgotten
      have alone : report.batch = [] :=
        reports.alone.resolve_left (by rwa [reports.droppedIDs])
      have positive := pdp.limit_pos
      have noneLeft : (pdp.accepted report).droppedIDs = [] := by
        simp [PDP.accepted, PDP.remove, reports.droppedIDs]
      have same : (pdp.accepted report).pending = pdp.pending := by
        simp [PDP.accepted, PDP.remove, alone]
      rw [PDP.weight, PDP.weight, noneLeft, same, limit, if_pos rfl, if_neg loss]
      omega
  | kept | counted => simp at again
  | halved status some =>
    have noLoss : pdp.droppedIDs = [] := by
      rw [← reports.droppedIDs]
      exact reports.alone.resolve_right some
    have fits := (PDP.batch_of_report reported noLoss).2
    have limit : PDP.limit { pdp.remove (report.taken response decoded) with
        batchCap := (report.batch.length - report.partly response + 1) / 2 } =
        (report.batch.length - report.partly response + 1) / 2 := by
      exact if_pos (by dsimp only; omega)
    have fewer : (pdp.pending.length - report.taken response decoded) * (2 * most + 2) ≤
        pdp.pending.length * (2 * most + 2) := Nat.mul_le_mul_right _ (Nat.sub_le _ _)
    rw [PDP.weight, PDP.weight, limit]
    simp only [PDP.remove, noLoss, if_true, List.length_drop]
    omega
  | dropped status some left below few =>
    have within : report.partly response < report.batch.length := by
      have := List.length_pos_iff.mpr some
      unfold Report.partly
      split <;> omega
    have limit : ((pdp.remove (report.taken response decoded)).dropFirst sha256 handling).limit ≤
        most := by
      unfold PDP.dropFirst
      split
      · exact limited
      · exact top
    refine ⟨limit, PDP.weight_lt_of_length_lt ?_ limit⟩
    unfold PDP.dropFirst
    split
    · rename_i none
      have := congrArg List.length none
      simp only [PDP.remove, List.length_drop, List.length_nil] at this
      omega
    · simp only [PDP.remove, List.length_drop]
      omega

/-- The largest batch a flush can send. -/
def PDP.most (pdp : PDP) : Nat :=
  max maxBatchDecisions pdp.limit

/-- A flush returns after finitely many requests, whatever waits and whatever it is
answered. -/
theorem flush_returns (sha256 : Bytes → Bytes) (exchanges : Nat → Exchange) (made : Nat)
    (pdp : PDP) :
    ∃ result, pdp.flush sha256 exchanges made (pdp.weight pdp.most) = some result := by
  -- by induction on the requests left, with the bound of the first state kept
  have returns (most : Nat) (top : maxBatchDecisions ≤ most) :
      ∀ fuel made pdp, PDP.limit pdp ≤ most → pdp.weight most ≤ fuel →
        ∃ result, pdp.flush sha256 exchanges made fuel = some result := by
    intro fuel
    induction fuel with
    | zero =>
      intro made pdp limited enough
      have positive := pdp.limit_pos
      unfold PDP.weight at enough
      omega
    | succ fuel ih =>
      intro made pdp limited enough
      unfold PDP.flush
      split
      · exact ⟨_, rfl⟩
      rename_i report reported
      dsimp only
      split
      · exact ⟨_, rfl⟩
      rename_i response decoded handling answered
      split
      · rename_i again
        obtain ⟨stays, less⟩ :=
          PDP.respondTo_weight reported top limited response decoded handling again
        exact ih (made + 1) _ stays (by omega)
      · exact ⟨_, rfl⟩
  exact returns pdp.most (le_max_left _ _) _ made pdp (le_max_right _ _) le_rfl

end OmegaPlane.Agent
