import Mathlib.Data.List.Sort
import OmegaPlane.Data.JsonDecode
import OmegaPlane.Storage.Change

/-!
# Managing stored policies

The handlers of `/v1/policies` that write, from the checks on a request to the
change they hand to the store.  Every committed change leaves an audit row with
the digest of the text it put in place.
-/

namespace OmegaPlane.Policies

open Audit Storage

/-! ## The engine -/

/-- A map of texts. -/
abbrev TextMap := Table (Prod.fst : Bytes × Bytes → Bytes)

/-- The sources the engine evaluates: the files with the Cedar ids they define,
and the stored policies once a set has been loaded. -/
structure Engine where
  files : TextMap
  fileIDs : List Bytes
  stored : Option TextMap

def storedPolicyKey (id : Bytes) : Bytes :=
  ascii "api/" ++ id

/-- Why a text is not taken as a stored policy. -/
inductive TextError where
  | parse (message : Bytes)
  | noPolicy
  | taken (policyID : Bytes)
  deriving DecidableEq

-- the Cedar parser: the policy ids a set of sources defines
variable (parseSources : List (Bytes × Bytes) → Except Bytes (List Bytes))

/-- Whether the text would load as the stored policy, and the Cedar ids it
defines. -/
def Engine.checkStored (engine : Engine) (id text : Bytes) : Except TextError (List Bytes) :=
  match parseSources [(storedPolicyKey id, text)] with
  | .error message => .error (.parse message)
  | .ok ids =>
    if ids = [] then .error .noPolicy
    else
      match (ids.insertionSort (· ≤ ·)).find? fun id => engine.fileIDs.contains id with
      | some id => .error (.taken id)
      | none => .ok (ids.insertionSort (· ≤ ·))

/-! ## Requests -/

/-- What a request brings: the authenticated caller, the proxy it came through
and the `If-Match` header, empty where absent. -/
structure Request where
  caller : Bytes
  via : Bytes := []
  ifMatch : Bytes := []

/-- The server's settings for policy writes. -/
structure Config where
  requireAuth : Bool
  rootAdmins : List Bytes
  engine : Engine

/-- The answers of the handlers. -/
inductive Answer where
  | readOnly (id : Bytes)
  | badID (id : Bytes)
  | otherID (bodyID id : Bytes)
  | forbidden (reason : String)
  | needsIfMatch
  | tooLong (length : Nat)
  | badText (err : TextError)
  | failed (err : StoreError)
  | created (policy : Option Policy)
  | updated (policy : Option Policy)
  | deleted
  deriving DecidableEq

def errPreconditionFailed : StoreError :=
  .refused "If-Match does not match the policy's current ETag; read it again and retry"

def Answer.status : Answer → Nat
  | .readOnly _ => 409
  | .badID _ => 400
  | .otherID _ _ => 400
  | .forbidden _ => 403
  | .needsIfMatch => 428
  | .tooLong _ => 400
  | .badText _ => 400
  | .failed err =>
    if err = .notFound then 404
    else if err = .alreadyExists then 409
    else if err = errPreconditionFailed then 412
    else if err = .notLeader then 503
    else 500
  | .created _ => 201
  | .updated _ => 200
  | .deleted => 204

/-- A lower-case letter or a digit. -/
def isNameByte (c : UInt8) : Bool :=
  (97 ≤ c.toNat ∧ c.toNat ≤ 122) ∨ (48 ≤ c.toNat ∧ c.toNat ≤ 57)

/-- Up to 63 letters, digits, dashes and underscores that start and end with a
letter or digit. -/
def validatePolicyID (id : Bytes) : Bool :=
  id.length ≤ 63 ∧ id.head?.any isNameByte ∧ id.getLast?.any isNameByte ∧
    id.all fun c => isNameByte c || c = 95 || c = 45

/-- Longest text of a stored policy. -/
def maxPolicyBytes : Nat := 65536

def checkPolicyRequest (engine : Engine) (id text : Bytes) : Except Answer (List Bytes) :=
  if !validatePolicyID id then .error (.badID id)
  else if maxPolicyBytes < text.length then .error (.tooLong text.length)
  else
    match engine.checkStored parseSources id text with
    | .error err => .error (.badText err)
    | .ok ids => .ok ids

/-! ## Audit rows -/

/-- Add the acting proxy to a payload. -/
def withVia (request : Request) (payload : List (Bytes × Json)) : List (Bytes × Json) :=
  if request.via = [] then payload else payload ++ [(ascii "via", .str request.via)]

def policyCreate : Bytes := ascii "policy.create"

def policyUpdate : Bytes := ascii "policy.update"

def policyDelete : Bytes := ascii "policy.delete"

variable (sha256 : Bytes → Bytes)

/-- The digest of a stored policy, empty where there is none. -/
def digestOf : Option Policy → Bytes
  | none => []
  | some policy => policyDigest sha256 policy.text

/-- The payload of a change, in the order of its keys; a delete leaves no text
and names no Cedar ids. -/
def policyPayload (kind id : Bytes) (cur : Option Policy) (text : Bytes) (version : Int)
    (cedarIDs : List Bytes) : List (Bytes × Json) :=
  (if kind = policyDelete then [] else [(ascii "cedar_ids", .arr (cedarIDs.map .str))]) ++
    [(ascii "id", .str id),
      (ascii "new_digest", .str (if kind = policyDelete then [] else policyDigest sha256 text)),
      (ascii "old_digest", .str (digestOf sha256 cur)), (ascii "version", .int version)]

/-- The audit row of a stored policy change. -/
def policyEvent (request : Request) (kind id : Bytes) (cur : Option Policy) (text : Bytes)
    (version : Int) (cedarIDs : List Bytes) : AuditDraft where
  kind := kind
  actor := request.caller
  subject := id
  decision := ascii "ok"
  payload := some (Json.encode (.obj
    (withVia request (policyPayload sha256 kind id cur text version cedarIDs))))

/-- Why a caller may not write policies, if it may not. -/
def refusal (config : Config) (request : Request) : Option String :=
  if !config.requireAuth then some "managing policies over the API needs --require-auth"
  else if request.caller = [] ∨ !config.rootAdmins.contains request.caller then
    some "caller is not a --domain-root-admin"
  else none

/-- The row a refused write leaves. -/
def refusalEvent (request : Request) (kind id : Bytes) (reason : String) : AuditDraft where
  kind := kind
  actor := request.caller
  subject := id
  decision := ascii "deny"
  payload := some (Json.encode (.obj (withVia request [(ascii "reason", .str (ascii reason))])))

/-! ## Handlers -/

/-- The entity tag of a policy, quoted. -/
def etag (policy : Policy) : Bytes :=
  34 :: decimal policy.version ++ ascii "-" ++ policyDigest sha256 policy.text ++ [34]

/-- The header names the tag or any tag. -/
def ifMatch (header tag : Bytes) : Bool :=
  (header.splitOn 44).any fun part => Text.trimSpace part = ascii "*" ∨ Text.trimSpace part = tag

variable {σ : Type}

/-- Commit a change and answer with the row it wrote. -/
def commitChange (s : Store σ) (call : Call) (id : Bytes) (change : PolicyChange)
    (done : Option Policy → Answer) : Store σ × Answer :=
  match changePolicy sha256 s call id change with
  | (s', .error err) => (s', .failed err)
  | (s', .ok (policy, _)) => (s', done policy)

/-- Continue with an authorized request; a refusal is audited. -/
def authorizePolicyWrite (config : Config) (request : Request) (s : Store σ) (call : Call)
    (kind id : Bytes) (authorized : Store σ × Answer) : Store σ × Answer :=
  match refusal config request with
  | some reason =>
    ((appendAudit sha256 s call (refusalEvent request kind id reason)).1, .forbidden reason)
  | none => authorized

def createChange (request : Request) (id text : Bytes) (cedarIDs : List Bytes) : PolicyChange
  | some _ => .error .alreadyExists
  | none =>
    .ok (some { id := [], text := text, version := 0, createdBy := [], createdAt := 0,
                updatedBy := request.caller, updatedAt := 0 },
      policyEvent sha256 request policyCreate id none text 1 cedarIDs)

def updateChange (request : Request) (id text : Bytes) (cedarIDs : List Bytes) : PolicyChange
  | none => .error .notFound
  | some cur =>
    if !ifMatch request.ifMatch (etag sha256 cur) then .error errPreconditionFailed
    else
      .ok (some { id := [], text := text, version := 0, createdBy := [], createdAt := 0,
                  updatedBy := request.caller, updatedAt := 0 },
        policyEvent sha256 request policyUpdate id (some cur) text (cur.version + 1) cedarIDs)

def deleteChange (request : Request) (id : Bytes) : PolicyChange
  | none => .error .notFound
  | some cur =>
    if !ifMatch request.ifMatch (etag sha256 cur) then .error errPreconditionFailed
    else .ok (none, policyEvent sha256 request policyDelete id (some cur) [] cur.version [])

/-! ### What a change decides -/

section Decided

variable {sha256} {request : Request} {id text : Bytes} {cedarIDs : List Bytes}
  {cur next : Option Policy} {draft : AuditDraft}

theorem createChange_eq_ok
    (decided : createChange sha256 request id text cedarIDs cur = .ok (next, draft)) :
    cur = none ∧ next.map Policy.text = some text ∧
      draft = policyEvent sha256 request policyCreate id none text 1 cedarIDs := by
  cases cur with
  | some => contradiction
  | none =>
    obtain ⟨rfl, rfl⟩ := Prod.mk.inj (Except.ok.inj decided)
    exact ⟨rfl, rfl, rfl⟩

theorem updateChange_eq_ok
    (decided : updateChange sha256 request id text cedarIDs cur = .ok (next, draft)) :
    ∃ old, cur = some old ∧ ifMatch request.ifMatch (etag sha256 old) = true ∧
      next.map Policy.text = some text ∧
      draft = policyEvent sha256 request policyUpdate id (some old) text (old.version + 1)
        cedarIDs := by
  cases cur with
  | none => contradiction
  | some old =>
  simp only [updateChange] at decided
  split at decided
  · contradiction
  · rename_i matched
    obtain ⟨rfl, rfl⟩ := Prod.mk.inj (Except.ok.inj decided)
    exact ⟨old, rfl, by simpa using matched, rfl, rfl⟩

theorem deleteChange_eq_ok (decided : deleteChange sha256 request id cur = .ok (next, draft)) :
    ∃ old, cur = some old ∧ ifMatch request.ifMatch (etag sha256 old) = true ∧ next = none ∧
      draft = policyEvent sha256 request policyDelete id (some old) [] old.version [] := by
  cases cur with
  | none => contradiction
  | some old =>
  simp only [deleteChange] at decided
  split at decided
  · contradiction
  · rename_i matched
    obtain ⟨rfl, rfl⟩ := Prod.mk.inj (Except.ok.inj decided)
    exact ⟨old, rfl, by simpa using matched, rfl, rfl⟩

end Decided

def createPolicy (config : Config) (request : Request) (s : Store σ) (call : Call)
    (id text : Bytes) : Store σ × Answer :=
  if (config.engine.files.lookup id).isSome then (s, .readOnly id)
  else if !validatePolicyID id then (s, .badID id)
  else
    authorizePolicyWrite sha256 config request s call policyCreate id
      (match checkPolicyRequest parseSources config.engine id text with
      | .error answer => (s, answer)
      | .ok ids =>
        commitChange sha256 s call id (createChange sha256 request id text ids) .created)

def updatePolicy (config : Config) (request : Request) (s : Store σ) (call : Call)
    (id bodyID text : Bytes) : Store σ × Answer :=
  if (config.engine.files.lookup id).isSome then (s, .readOnly id)
  else if bodyID ≠ [] ∧ bodyID ≠ id then (s, .otherID bodyID id)
  else if !validatePolicyID id then (s, .badID id)
  else
    authorizePolicyWrite sha256 config request s call policyUpdate id
      (if request.ifMatch = [] then (s, .needsIfMatch)
      else
        match checkPolicyRequest parseSources config.engine id text with
        | .error answer => (s, answer)
        | .ok ids =>
          commitChange sha256 s call id (updateChange sha256 request id text ids) .updated)

def deletePolicy (config : Config) (request : Request) (s : Store σ) (call : Call)
    (id : Bytes) : Store σ × Answer :=
  if (config.engine.files.lookup id).isSome then (s, .readOnly id)
  else if !validatePolicyID id then (s, .badID id)
  else
    authorizePolicyWrite sha256 config request s call policyDelete id
      (if request.ifMatch = [] then (s, .needsIfMatch)
      else commitChange sha256 s call id (deleteChange sha256 request id) fun _ => .deleted)

end OmegaPlane.Policies
