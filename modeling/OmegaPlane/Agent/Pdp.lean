import OmegaPlane.Data.Clock
import OmegaPlane.Data.Checks
import OmegaPlane.Decision.Batch

/-!
# The local policy decision point

An agent decides from the last bundle it loaded, queues every decision and
ships the queue to the control plane.  Each critical section of `Sync`,
`evaluate` and `flush` is one function on the state, so that the calls can be
interleaved between them.
-/

namespace OmegaPlane.Agent

open Decision

/-! ## Bundles -/

/-- A policy bundle.  The content is the encoding its revision is a hash of. -/
structure Bundle where
  revision : Bytes
  trustDomain : Bytes
  issuedAt : Int
  signature : Bytes
  content : Bytes
  deriving DecidableEq

/-- What an engine holds before a bundle is loaded. -/
def Bundle.none : Bundle where
  revision := []
  trustDomain := []
  issuedAt := Clock.zeroInstant
  signature := []
  content := []

/-- The policy engine and the signature check of the configured key. -/
structure Policy where
  verifies : Bundle → Bool
  loads : Bundle → Bool
  evaluate : Bundle → EvalRequest → Except Bytes EvalResponse

/-- The settings of the decision point. -/
structure Config where
  maxAge : Int
  bufferSize : Nat
  trustDomain : Bytes
  bundleKey : Bool
  spooling : Bool

/-- The settings for configured values; absent ones have defaults. -/
def Config.new (syncInterval maxAge bufferSize : Int) (trustDomain : Bytes)
    (bundleKey spooling : Bool) : Config where
  maxAge :=
    let interval := if syncInterval ≤ 0 then 10 * Clock.second else syncInterval
    if maxAge ≤ 0 then Clock.wrap64 (6 * interval) else maxAge
  bufferSize := if bufferSize ≤ 0 then 10000 else bufferSize.toNat
  trustDomain := trustDomain
  bundleKey := bundleKey
  spooling := spooling

/-! ## The state -/

/-- A decision encoded for shipping, with the revision it was made with. -/
structure Queued where
  id : Bytes
  raw : Bytes
  revision : Bytes
  deriving DecidableEq

structure PDP where
  /-- What the engine evaluates. -/
  bundle : Bundle
  revision : Bytes
  /-- The newest signed bundle loaded. -/
  issuedAt : Int
  synced : Int
  pending : List Queued
  /-- Slots held by decisions being made. -/
  reserved : Nat
  droppedIDs : List Bytes
  droppedDigests : List Bytes
  lossID : Bytes
  dropStreak : Nat
  dropTimes : List Int
  batchCap : Nat
  /-- Decisions taken off the queue. -/
  removed : Nat

/-- A decision point that has not synced. -/
def PDP.new : PDP where
  bundle := .none
  revision := []
  issuedAt := Clock.zeroInstant
  synced := Clock.zeroInstant
  pending := []
  reserved := 0
  droppedIDs := []
  droppedDigests := []
  lossID := []
  dropStreak := 0
  dropTimes := []
  batchCap := 0
  removed := 0

/-! ## Sync -/

def maxClockSkew : Int := Clock.minute

/-- The answer to a poll. -/
inductive PollAnswer where
  | unreachable
  | notModified
  | status (code : Nat)
  | undecodable
  | bundle (bundle : Bundle)

inductive SyncError where
  | unreachable
  | unsignedNotModified
  | status (code : Nat)
  | undecodable
  | noTrustDomain
  | trustDomain (got : Bytes)
  | revision
  | notSigned
  | signature
  | older
  | tooOld
  | future
  | load
  deriving DecidableEq

/-- The readings of the clock in a sync, in their order. -/
structure SyncReadings where
  age : Int
  ahead : Int
  mark : Int
  synced : Int
  ahead_le : age ≤ ahead
  mark_le : ahead ≤ mark
  synced_le : mark ≤ synced

variable (sha256 : Bytes → Bytes) (policy : Policy) (config : Config)

/-- The hash of a bundle's content. -/
def bundleRevision (bundle : Bundle) : Bytes :=
  Hex.encodeToString (sha256 bundle.content)

/-- The checks on a bundle when a signing key is configured. -/
def PDP.checkSigned (pdp : PDP) (bundle : Bundle) (clock : SyncReadings) : Except SyncError Unit :=
  if bundle.revision ≠ bundleRevision sha256 bundle then .error .revision
  else if bundle.signature = [] ∨ bundle.issuedAt = Clock.zeroInstant then .error .notSigned
  else if ¬ policy.verifies bundle then .error .signature
  else if bundle.issuedAt < pdp.issuedAt - maxClockSkew then .error .older
  else if config.maxAge < Clock.sub clock.age bundle.issuedAt then .error .tooOld
  else if maxClockSkew < Clock.sub bundle.issuedAt clock.ahead then .error .future
  else .ok ()

/-- The checks on a bundle before it is loaded. -/
def PDP.checkBundle (pdp : PDP) (bundle : Bundle) (clock : SyncReadings) : Except SyncError Unit :=
  if config.trustDomain = [] then .error .noTrustDomain
  else if bundle.trustDomain ≠ config.trustDomain then .error (.trustDomain bundle.trustDomain)
  else if config.bundleKey then pdp.checkSigned sha256 policy config bundle clock
  else .ok ()

/-- The engine is swapped under its own lock. -/
def PDP.loadBundle (pdp : PDP) (bundle : Bundle) : PDP :=
  { pdp with bundle }

/-- The state is stamped after the engine was swapped; the mark is never past
the clock. -/
def PDP.stamp (pdp : PDP) (bundle : Bundle) (mark synced : Int) : PDP :=
  { pdp with
    revision := bundle.revision
    issuedAt := max pdp.issuedAt (min bundle.issuedAt mark)
    synced }

/-- Handle the answer to a poll. -/
def PDP.sync (pdp : PDP) (answer : PollAnswer) (clock : SyncReadings) :
    Except SyncError Unit × PDP :=
  match answer with
  | .unreachable => (.error .unreachable, pdp)
  | .notModified =>
    if config.bundleKey then (.error .unsignedNotModified, pdp)
    else (.ok (), { pdp with synced := clock.synced })
  | .status code => (.error (.status code), pdp)
  | .undecodable => (.error .undecodable, pdp)
  | .bundle bundle =>
    match pdp.checkBundle sha256 policy config bundle clock with
    | .error err => (.error err, pdp)
    | .ok () =>
      if bundle.revision ≠ bundleRevision sha256 bundle ∨ ¬ policy.loads bundle then
        (.error .load, pdp)
      else (.ok (), (pdp.loadBundle bundle).stamp bundle clock.mark clock.synced)

/-! ## Evaluate -/

inductive EvalError where
  | notSynced
  | full (waiting : Nat)
  | engine (message : Bytes)
  | marshal
  | spool
  deriving DecidableEq

/-- Check the freshness of the bundle and take a slot. -/
def PDP.reserve (pdp : PDP) (now : Int) : Except EvalError PDP :=
  if pdp.synced = Clock.zeroInstant ∨ config.maxAge < Clock.sub now pdp.synced then
    .error .notSynced
  else if config.bufferSize ≤ pdp.pending.length + pdp.reserved then
    .error (.full (pdp.pending.length + pdp.reserved))
  else .ok { pdp with reserved := pdp.reserved + 1 }

/-- Give the slot of a decision that was not made back. -/
def PDP.release (pdp : PDP) : PDP :=
  { pdp with reserved := pdp.reserved - 1 }

/-- Queue a decision in the slot it holds. -/
def PDP.enqueue (pdp : PDP) (queued : Queued) : PDP :=
  { pdp with pending := pdp.pending ++ [queued], reserved := pdp.reserved - 1 }

/-- A fresh id for the drawn bytes. -/
def newID (random : Bytes) : Bytes :=
  Hex.encodeToString random

/-- What a call of `evaluate` brings: the request and its id in the form for the
audit row, the readings of the clock, the bytes drawn for the id and whether
the decision can be written to the spool. -/
structure EvalCall where
  request : EvalRequest
  requestID : Bytes
  requestIDSHA256 : Bytes
  now : Int
  decidedAt : Int
  random : Bytes
  spools : Bool

def EvalCall.decision (call : EvalCall) (response : EvalResponse) : LocalDecision where
  id := newID call.random
  decidedAt := call.decidedAt
  requestID := call.requestID
  requestIDSHA256 := call.requestIDSHA256
  request := call.request
  response := response

variable (marshal : LocalDecision → Option Bytes)

/-- A decision of the engine, encoded with the revision it was made with. -/
def EvalCall.decide (call : EvalCall) (bundle : Bundle) :
    Except EvalError (EvalResponse × Queued) :=
  match policy.evaluate bundle call.request with
  | .error message => .error (.engine message)
  | .ok response =>
    match marshal (call.decision response) with
    | none => .error .marshal
    | some raw => .ok (response, { id := newID call.random, raw, revision := bundle.revision })

/-- A call of `evaluate` that nothing interrupts. -/
def PDP.evaluate (pdp : PDP) (call : EvalCall) : Except EvalError EvalResponse × PDP :=
  match pdp.reserve config call.now with
  | .error err => (.error err, pdp)
  | .ok held =>
    match call.decide policy marshal held.bundle with
    | .error err => (.error err, held.release)
    | .ok (response, queued) =>
      if config.spooling ∧ ¬ call.spools then (.error .spool, held.release)
      else (.ok response, held.enqueue queued)

/-! ## Flush -/

def maxDropStreak : Nat := 3
def maxDropsPerHour : Nat := 10
def maxBatchBytes : Nat := 768 * 1024
def maxBatchDecisions : Nat := 1000

/-- A report to the control plane: a batch of one revision, or a loss. -/
structure Report where
  revision : Bytes
  batch : List Queued
  droppedIDs : List Bytes
  droppedDigests : List Bytes
  lossID : Bytes
  deriving DecidableEq

/-- The first decisions of a revision, at most `limit` of them, while their
bytes fit; the first one always does. -/
@[simp]
def takeBatch (revision : Bytes) : Nat → Nat → List Queued → List Queued
  | 0, _, _ => []
  | _ + 1, _, [] => []
  | limit + 1, size, queued :: rest =>
    if queued.revision ≠ revision then []
    else if 0 < size ∧ maxBatchBytes < size + queued.raw.length + 1 then []
    else queued :: takeBatch revision limit (size + queued.raw.length + 1) rest

/-- What the next request of a flush reports; nothing when nothing waits.  A
loss goes out on its own. -/
def PDP.report (pdp : PDP) : Option Report :=
  if pdp.pending = [] ∧ pdp.droppedIDs = [] then none
  else
    let revision := (pdp.pending.head?.map (·.revision)).getD []
    some
      { revision
        batch :=
          if pdp.droppedIDs = [] then
            takeBatch revision (if 0 < pdp.batchCap then pdp.batchCap else maxBatchDecisions) 0
              pdp.pending
          else []
        droppedIDs := pdp.droppedIDs
        droppedDigests := pdp.droppedDigests
        lossID := pdp.lossID }

/-- An answer as the agent reads it; the count is zero when it is missing. -/
structure Response where
  status : Nat
  recorded : Nat
  deriving DecidableEq

/-- The drops of the last hour. -/
def PDP.recentDrops (pdp : PDP) (now : Int) : List Int :=
  pdp.dropTimes.filter (now - Clock.hour < ·)

/-- What handling an answer draws: the clock when recent drops are counted and
when a drop is noted, and the bytes of a loss id. -/
structure Handling where
  counted : Int
  noted : Int
  random : Bytes

/-- Take the first decisions off the queue. -/
def PDP.remove (pdp : PDP) (count : Nat) : PDP :=
  { pdp with pending := pdp.pending.drop count, removed := pdp.removed + count }

/-- Drop the first decision and remember it for the loss report. -/
def PDP.dropFirst (pdp : PDP) (handling : Handling) : PDP :=
  match pdp.pending with
  | [] => pdp
  | first :: _ =>
    { pdp.remove 1 with
      lossID := if pdp.lossID = [] then newID handling.random else pdp.lossID
      droppedIDs := pdp.droppedIDs ++ [first.id]
      droppedDigests := pdp.droppedDigests ++ [Hex.encodeToString (sha256 first.raw)]
      dropTimes := pdp.recentDrops handling.counted ++ [handling.noted]
      dropStreak := pdp.dropStreak + 1
      batchCap := 0 }

/-- How many decisions of a report the answer says were recorded before it
failed. -/
def Report.partly (report : Report) (response : Response) : Nat :=
  if 0 < response.recorded ∧ response.recorded < report.batch.length then response.recorded else 0

/-- The report was accepted. -/
def PDP.accepted (pdp : PDP) (report : Report) : PDP :=
  let pdp := pdp.remove report.batch.length
  { pdp with
    droppedIDs := pdp.droppedIDs.drop report.droppedIDs.length
    droppedDigests := pdp.droppedDigests.drop report.droppedDigests.length
    lossID :=
      if report.droppedIDs ≠ [] ∧ pdp.droppedIDs.drop report.droppedIDs.length = [] then []
      else pdp.lossID
    dropStreak := if report.batch = [] then pdp.dropStreak else 0
    batchCap := 0 }

/-- The report was rejected as it is: the batch is halved until the rejected
decision is alone, and that one is dropped, unless too many were. -/
def PDP.rejected (pdp : PDP) (left : Nat) (handling : Handling) : PDP × Bool :=
  if 1 < left then ({ pdp with batchCap := (left + 1) / 2 }, true)
  else if maxDropStreak ≤ pdp.dropStreak then (pdp, false)
  else if maxDropsPerHour ≤ (pdp.recentDrops handling.counted).length then
    ({ pdp with dropTimes := pdp.recentDrops handling.counted }, false)
  else (pdp.dropFirst sha256 handling, true)

/-- Handle the answer to a report; the flag says whether the flush goes on. -/
def PDP.respond (pdp : PDP) (report : Report) (response : Response) (handling : Handling) :
    PDP × Bool :=
  if response.status = 200 then (pdp.accepted report, true)
  else
    let pdp := pdp.remove (report.partly response)
    if (response.status = 400 ∨ response.status = 413) ∧ report.batch ≠ [] then
      pdp.rejected sha256 (report.batch.length - report.partly response) handling
    else (pdp, false)

/-- What is taken off the queue as recorded: nothing unless the body decodes. -/
def Report.taken (report : Report) (response : Response) (decoded : Bool) : Nat :=
  if decoded then report.partly response else 0

/-- `respond` whether or not the body decodes.  A body that sets the count and is then
found to be ill-typed, such as one that gives it twice, counts for what is left of the
batch although nothing is taken off the queue for it. -/
def PDP.respondTo (pdp : PDP) (report : Report) (response : Response) (decoded : Bool)
    (handling : Handling) : PDP × Bool :=
  if response.status = 200 then (pdp.accepted report, true)
  else
    let pdp := pdp.remove (report.taken response decoded)
    if (response.status = 400 ∨ response.status = 413) ∧ report.batch ≠ [] then
      pdp.rejected sha256 (report.batch.length - report.partly response) handling
    else (pdp, false)

/-! ## What a report holds and what its answer does -/

theorem takeBatch_prefix (revision : Bytes) (limit size : Nat) (pending : List Queued) :
    takeBatch revision limit size pending <+: pending := by
  fun_induction takeBatch revision limit size pending with
  | case1 | case2 | case3 | case4 => exact List.nil_prefix
  | case5 limit size queued rest same fits ih => exact List.cons_prefix_cons.mpr ⟨rfl, ih⟩

variable {revision : Bytes} {limit size : Nat} {pending : List Queued}

theorem revision_of_mem_takeBatch {queued : Queued}
    (member : queued ∈ takeBatch revision limit size pending) :
    queued.revision = revision := by
  fun_induction takeBatch revision limit size pending with
  | case1 | case2 | case3 | case4 => simp at member
  | case5 limit size first rest same fits ih =>
    rcases List.mem_cons.mp member with rfl | later
    · exact not_not.mp same
    · exact ih later

theorem takeBatch_length_le (revision : Bytes) (limit size : Nat) (pending : List Queued) :
    (takeBatch revision limit size pending).length ≤ limit := by
  fun_induction takeBatch revision limit size pending with
  | case1 => exact le_rfl
  | case2 | case3 | case4 => exact Nat.zero_le _
  | case5 limit size queued rest same fits ih => exact Nat.succ_le_succ ih

/-- The bytes of decisions, each with a separator. -/
def batchBytes (batch : List Queued) : Nat :=
  (batch.map fun queued => queued.raw.length + 1).sum

/-- What is added to a batch keeps it within the limit. -/
theorem takeBatch_fits (begun : 0 < size) (some : takeBatch revision limit size pending ≠ []) :
    size + batchBytes (takeBatch revision limit size pending) ≤ maxBatchBytes := by
  fun_induction takeBatch revision limit size pending with
  | case1 | case2 | case3 | case4 => exact absurd rfl some
  | case5 limit size queued rest same fits ih =>
    have added : size + queued.raw.length + 1 ≤ maxBatchBytes := by
      by_contra beyond
      exact fits ⟨begun, not_le.mp beyond⟩
    simp only [batchBytes, List.map_cons, List.sum_cons] at ih ⊢
    by_cases last : takeBatch revision limit (size + queued.raw.length + 1) rest = []
    · rw [last]
      simp only [List.map_nil, List.sum_nil]
      omega
    · have rest := ih (by omega) last
      omega

/-- What a report holds. -/
structure Reports (pdp : PDP) (report : Report) : Prop where
  batch : report.batch <+: pdp.pending
  revision : ∀ queued ∈ report.batch, queued.revision = report.revision
  droppedIDs : report.droppedIDs = pdp.droppedIDs
  lossID : report.lossID = pdp.lossID
  alone : report.droppedIDs = [] ∨ report.batch = []

theorem PDP.reports_of_report {pdp : PDP} {report : Report}
    (reported : pdp.report = some report) : Reports pdp report := by
  unfold PDP.report at reported
  split at reported
  · contradiction
  obtain rfl := Option.some.inj reported
  by_cases none : pdp.droppedIDs = []
  · refine ⟨?_, ?_, rfl, rfl, .inl none⟩
    · simp only [none, if_true]
      exact takeBatch_prefix _ _ _ _
    · intro queued member
      simp only [none, if_true] at member
      exact revision_of_mem_takeBatch member
  · refine ⟨?_, ?_, rfl, rfl, .inr ?_⟩ <;> simp [none]

/-- All that handling an answer can do, where `taken` decisions are taken off the queue as
recorded. -/
inductive Responded (pdp : PDP) (report : Report) (response : Response) (taken : Nat)
    (handling : Handling) : PDP × Bool → Prop where
  | accepted (status : response.status = 200) :
      Responded pdp report response taken handling (pdp.accepted report, true)
  | kept (status : response.status ≠ 200) :
      Responded pdp report response taken handling (pdp.remove taken, false)
  | counted (status : response.status ≠ 200) :
      Responded pdp report response taken handling
        ({ pdp.remove taken with dropTimes := pdp.recentDrops handling.counted }, false)
  | halved (status : response.status ≠ 200) (some : report.batch ≠ [])
      (several : 1 < report.batch.length - report.partly response) :
      Responded pdp report response taken handling
        ({ pdp.remove taken with
            batchCap := (report.batch.length - report.partly response + 1) / 2 }, true)
  | dropped (status : response.status = 400 ∨ response.status = 413) (some : report.batch ≠ [])
      (left : report.batch.length - report.partly response ≤ 1)
      (below : pdp.dropStreak < maxDropStreak)
      (few : (pdp.recentDrops handling.counted).length < maxDropsPerHour) :
      Responded pdp report response taken handling
        ((pdp.remove taken).dropFirst sha256 handling, true)

theorem PDP.respondTo_responded (pdp : PDP) (report : Report) (response : Response)
    (decoded : Bool) (handling : Handling) :
    Responded sha256 pdp report response (report.taken response decoded) handling
      (pdp.respondTo sha256 report response decoded handling) := by
  unfold PDP.respondTo
  split
  · rename_i status
    exact .accepted status
  rename_i status
  dsimp only
  split
  · rename_i rejected
    unfold PDP.rejected
    split
    · rename_i several
      exact .halved status rejected.2 several
    rename_i single
    split
    · exact .kept status
    rename_i below
    split
    · exact .counted status
    · rename_i few
      exact .dropped rejected.1 rejected.2 (not_lt.mp single) (not_le.mp below) (not_le.mp few)
  · exact .kept status

/-- All that handling an answer does to the queue and to the losses. -/
inductive Handled (pdp : PDP) (report : Report) (response : Response) (handling : Handling)
    (after : PDP) : Prop where
  | accepted (status : response.status = 200)
      (pending : after.pending = pdp.pending.drop report.batch.length)
      (droppedIDs : after.droppedIDs = pdp.droppedIDs.drop report.droppedIDs.length)
      (lossID : after.lossID =
        if report.droppedIDs ≠ [] ∧ pdp.droppedIDs.drop report.droppedIDs.length = [] then []
        else pdp.lossID)
  | kept (status : response.status ≠ 200)
      (pending : after.pending = pdp.pending.drop (report.partly response))
      (droppedIDs : after.droppedIDs = pdp.droppedIDs) (lossID : after.lossID = pdp.lossID)
  | dropped (first : Queued) (status : response.status = 400 ∨ response.status = 413)
      (some : report.batch ≠ []) (left : report.batch.length - report.partly response ≤ 1)
      (pending : pdp.pending.drop (report.partly response) = first :: after.pending)
      (droppedIDs : after.droppedIDs = pdp.droppedIDs ++ [first.id])
      (lossID : after.lossID = if pdp.lossID = [] then newID handling.random else pdp.lossID)

theorem PDP.respond_handled (pdp : PDP) (report : Report) (response : Response)
    (handling : Handling) :
    Handled pdp report response handling (pdp.respond sha256 report response handling).1 := by
  rw [show pdp.respond sha256 report response handling =
    pdp.respondTo sha256 report response true handling from rfl]
  have responded := pdp.respondTo_responded sha256 report response true handling
  generalize pdp.respondTo sha256 report response true handling = result at responded ⊢
  cases responded with
  | accepted status => exact .accepted status rfl rfl rfl
  | kept status | counted status | halved status => exact .kept status rfl rfl rfl
  | dropped status some left below few =>
  unfold PDP.dropFirst
  split
  · exact .kept (by omega) rfl rfl rfl
  rename_i first rest waiting
  refine .dropped first status some left ?_ rfl rfl
  simp only [PDP.remove, Report.taken, if_true] at waiting ⊢
  rw [waiting]
  rfl

/-- An answer changes nothing about the bundle. -/
theorem PDP.respond_bundle (pdp : PDP) (report : Report) (response : Response)
    (handling : Handling) :
    (pdp.respond sha256 report response handling).1.bundle = pdp.bundle := by
  unfold PDP.respond PDP.rejected PDP.dropFirst
  split
  · rfl
  · dsimp only
    repeat' split
    all_goals rfl

end OmegaPlane.Agent
