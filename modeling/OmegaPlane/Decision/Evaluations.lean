import Mathlib.Data.List.Forall2
import OmegaPlane.Crypto.Sha256
import OmegaPlane.Decision.Authorize
import OmegaPlane.Storage.Effect

/-!
# Evaluation endpoints

`POST /access/v1/evaluation` and its batch form.  A batch is checked as a whole before
anything is evaluated; each decision is audited as it is made, and a semantic that stops
at the first deny or permit answers with what it got so far.
-/

namespace OmegaPlane.Decision.Cedar

open Audit Storage

/-! ## Single evaluations -/

inductive Semantic where
  | executeAll
  | denyOnFirstDeny
  | permitOnFirstPermit
  deriving DecidableEq

section Endpoints

variable {σ : Type} (sha256 : Bytes → Bytes) (encode : EvaluationFields → Bytes)

-- the engine, which every request of this module finds in the same state at the same time
variable (evaluate : EvalRequest → Except RequestError EvalResponse)

variable (marshal : Decision.Value → Bytes)

/-- The batch ends with this decision. -/
def Semantic.stops (response : EvalResponse) : Semantic → Bool
  | .executeAll => false
  | .denyOnFirstDeny => !response.decision
  | .permitOnFirstPermit => response.decision

variable (calls : Nat → Call)

variable {sha256 encode evaluate marshal calls}

/-- The row holds what the draft says. -/
def Records (ev : AuditEvent) (draft : AuditDraft) : Prop :=
  ev.kind = draft.kind ∧ ev.subject = draft.subject ∧ ev.decision = draft.decision ∧
    some ev.payload = draft.payload

variable {s : Store σ} {semantic : Semantic} {size i : Nat}
  {decided : List (EvalRequest × EvalResponse)}

end Endpoints

section Batch

variable {π σ : Type} (outcome : π → (Evaluation.EntityUID → Record × List Evaluation.EntityUID) →
  Request → Outcome) (marshal : Decision.Value → Bytes) (engine : Engine π) (now : Int)

/-- `Evaluate`. -/
def evaluate (r : EvalRequest) : Except RequestError EvalResponse :=
  (evaluateRevision outcome marshal engine now r).map Prod.fst

variable {outcome marshal engine now}

end Batch

end OmegaPlane.Decision.Cedar
