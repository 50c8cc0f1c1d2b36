import Mathlib.Data.Rat.Floor
import OmegaPlane.Data.Hex
import OmegaPlane.Data.Text

/-!
# Batches of local decisions

The body of `POST /v1/audit/decisions` and the checks it has to pass before
anything is recorded.  A batch holds decisions or reports a loss, never both.
-/

namespace OmegaPlane.Decision

open Text

/-! ## Evaluation requests -/

/-- A decoded JSON value; numbers are the values of the 64-bit floats. -/
inductive Value where
  | null
  | bool (value : Bool)
  | number (value : Rat)
  | str (text : Bytes)
  | arr (items : List Value)
  | obj (fields : List (Bytes × Value))

/-- Why a value has no Cedar counterpart. -/
inductive ValueError where
  | null
  | fractional (value : Rat)
  | outOfRange (value : Rat)
  deriving DecidableEq

mutual

/-- The value is null or holds a null at any depth. -/
def containsNull : Value → Bool
  | .null => true
  | .arr items => anyContainsNull items
  | .obj fields => anyFieldContainsNull fields
  | _ => false

def anyContainsNull : List Value → Bool
  | [] => false
  | item :: rest => containsNull item || anyContainsNull rest

def anyFieldContainsNull : List (Bytes × Value) → Bool
  | [] => false
  | (_, value) :: rest => containsNull value || anyFieldContainsNull rest

end

mutual

/-- The checks of the conversion to a Cedar value. -/
def valueOf : Value → Except ValueError Unit
  | .null => .error .null
  | .number x =>
    if x.den ≠ 1 then .error (.fractional x)
    else if x ≥ 2 ^ 63 ∨ x < -2 ^ 63 then .error (.outOfRange x)
    else .ok ()
  | .arr items => valuesOf items
  | _ => .ok ()

def valuesOf : List Value → Except ValueError Unit
  | [] => .ok ()
  | item :: rest =>
    match valueOf item with
    | .error err => .error err
    | .ok () => valuesOf rest

end

/-- The checks of the conversion of an object; properties with a null are left
out. -/
def recordFromMap : List (Bytes × Value) → Except (Bytes × ValueError) Unit
  | [] => .ok ()
  | (key, value) :: rest =>
    if containsNull value then recordFromMap rest
    else
      match valueOf value with
      | .error err => .error (key, err)
      | .ok () => recordFromMap rest

/-- A subject or resource. -/
structure Entity where
  type : Bytes
  id : Bytes
  attrs : List (Bytes × Value) := []

/-- An evaluation request. -/
structure EvalRequest where
  subject : Entity
  actionName : Bytes
  resource : Entity
  context : List (Bytes × Value) := []

/-- Why a request is refused, by the field at fault. -/
inductive RequestError where
  | subjectRequired
  | actionRequired
  | resourceRequired
  | context (key : Bytes) (err : ValueError)
  | subjectProperties (key : Bytes) (err : ValueError)
  | resourceProperties (key : Bytes) (err : ValueError)
  deriving DecidableEq

/-- The request has its required fields. -/
def validateFields (r : EvalRequest) : Except RequestError Unit :=
  if trimSpace r.subject.type = [] ∨ trimSpace r.subject.id = [] then .error .subjectRequired
  else if trimSpace r.actionName = [] then .error .actionRequired
  else if trimSpace r.resource.type = [] ∨ trimSpace r.resource.id = [] then
    .error .resourceRequired
  else .ok ()

/-- The checks on the properties of subject and resource; those of a resource
that is the subject are not read. -/
def requestEntities (subject resource : Entity) : Except RequestError Unit :=
  match (if subject.attrs = [] then .ok () else recordFromMap subject.attrs) with
  | .error (key, err) => .error (.subjectProperties key err)
  | .ok () =>
    match (if resource.attrs = [] ∨ (resource.type, resource.id) = (subject.type, subject.id)
        then .ok () else recordFromMap resource.attrs) with
    | .error (key, err) => .error (.resourceProperties key err)
    | .ok () => .ok ()

/-- Every input check of an evaluation. -/
def validate (r : EvalRequest) : Except RequestError Unit :=
  match validateFields r with
  | .error err => .error err
  | .ok () =>
    match recordFromMap r.context with
    | .error (key, err) => .error (.context key err)
    | .ok () => requestEntities r.subject r.resource

/-! ## Batches -/

/-- A policy that failed to evaluate. -/
structure PolicyError where
  policy : Bytes
  message : Bytes

/-- An evaluation response. -/
structure EvalResponse where
  decision : Bool
  context : Option (List Bytes × List PolicyError)
  reasons : List Bytes

/-- One decision a local evaluator made.  `decidedAt` is in nanoseconds. -/
structure LocalDecision where
  id : Bytes
  decidedAt : Int
  requestID : Bytes := []
  requestIDSHA256 : Bytes := []
  request : EvalRequest
  response : EvalResponse

/-- The body of a report. -/
structure DecisionBatch where
  bundleRevision : Bytes := []
  decisions : List LocalDecision := []
  dropped : Int := 0
  droppedIDs : List Bytes := []
  droppedDigests : List Bytes := []
  lossID : Bytes := []

def maxDecisionBatch : Nat := 1000

/-- The zero time: the first instant of year 1. -/
def zeroTime : Int := -62135596800 * 1000000000

def maxRequestIDBytes : Nat := 128

/-- Letters, digits and the punctuation `-._~:/+=@;`. -/
def isRequestIDByte (c : UInt8) : Bool :=
  (97 ≤ c.toNat ∧ c.toNat ≤ 122) ∨ (65 ≤ c.toNat ∧ c.toNat ≤ 90) ∨ (48 ≤ c.toNat ∧ c.toNat ≤ 57) ∨
    c ∈ ascii "-._~:/+=@;"

def validRequestID (id : Bytes) : Bool :=
  id ≠ [] ∧ id.length ≤ maxRequestIDBytes ∧ id.all isRequestIDByte

/-- A lower-case hex SHA-256. -/
def isHexSHA256 (text : Bytes) : Bool :=
  text.length = 64 ∧
    text.all fun c => (48 ≤ c.toNat ∧ c.toNat ≤ 57) ∨ (97 ≤ c.toNat ∧ c.toNat ≤ 102)

/-- Each dropped id is set and each digest is a hex SHA-256. -/
def validLossEntries (batch : DecisionBatch) : Bool :=
  (batch.droppedIDs.zip batch.droppedDigests).all fun (id, digest) =>
    !(id = [] ∨ 128 < id.length) ∧ (Hex.decodeString digest).any fun bytes => bytes.length = 32

/-- Why a decision is refused. -/
inductive DecisionError where
  | idAndTime
  | requestID
  | request (err : RequestError)
  deriving DecidableEq

/-- Why a batch is refused. -/
inductive BatchError where
  | lossReport
  | lossWithDecisions
  | noDecisions
  | tooMany
  | decision (index : Nat) (err : DecisionError)
  deriving DecidableEq

def checkDecision (d : LocalDecision) : Except DecisionError Unit :=
  if d.id = [] ∨ 128 < d.id.length ∨ d.decidedAt = zeroTime then .error .idAndTime
  else if (d.requestID ≠ [] ∧ !validRequestID d.requestID) ∨
      (d.requestIDSHA256 ≠ [] ∧ (d.requestID ≠ [] ∨ !isHexSHA256 d.requestIDSHA256)) then
    .error .requestID
  else
    match validate d.request with
    | .error err => .error (.request err)
    | .ok () => .ok ()

def checkDecisions : Nat → List LocalDecision → Except BatchError Unit
  | _, [] => .ok ()
  | index, d :: rest =>
    match checkDecision d with
    | .error err => .error (.decision index err)
    | .ok () => checkDecisions (index + 1) rest

/-- Everything that is checked before anything is appended. -/
def checkBatch (batch : DecisionBatch) : Except BatchError Unit :=
  if batch.dropped < 0 ∨ batch.dropped ≠ batch.droppedIDs.length ∨
      maxDecisionBatch < batch.droppedIDs.length ∨
      batch.droppedDigests.length ≠ batch.droppedIDs.length ∨
      (0 < batch.dropped ∧ batch.lossID = []) ∨ 128 < batch.lossID.length ∨
      !validLossEntries batch then
    .error .lossReport
  else if 0 < batch.dropped ∧ batch.decisions ≠ [] then .error .lossWithDecisions
  else if batch.dropped = 0 ∧ batch.decisions = [] then .error .noDecisions
  else if maxDecisionBatch < batch.decisions.length then .error .tooMany
  else checkDecisions 0 batch.decisions

end OmegaPlane.Decision
