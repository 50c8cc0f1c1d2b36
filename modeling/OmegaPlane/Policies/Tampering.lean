import OmegaPlane.Policies.Replay
import OmegaPlane.Storage.Forgery

/-!
# Policies edited behind the API

A database writer without the audit keys edits the policies, the chain and the
keying epoch.  The load then accepts only texts the API had put in place under
their ids, as long as the unkeyed rows it reads are rows of the store.  A text
the API has since replaced is accepted again exactly where the rows that record
its replacement were deleted.
-/

namespace OmegaPlane.Policies

open Audit Storage Crypto

variable {σ : Type} {sha256 : Bytes → Bytes}
  {parseSources : List (Bytes × Bytes) → Except Bytes (List Bytes)} {s : Store σ}

/-! ## The latest change -/

section Accepted

variable {visited : List (Store σ)} {s : Store σ} {tables : Tables} {engine : Engine} {id : Bytes}

end Accepted

/-- The tables of a run are loaded, if every set parses. -/
theorem Run.loads {visited : List (Store σ)} (run : Run sha256 parseSources visited s)
    {ids : List (Bytes × Bytes) → List Bytes}
    (parses : ∀ sources, parseSources sources = .ok (ids sources)) (engine : Engine) :
    ∃ engine', loadStoredPolicies sha256 (fun _ => .ok (tablesOf s.db)) s.auditKeyring parseSources
        engine = .ok engine' ∧
      ∀ id, engine'.storedText id = (s.db.policies.lookup id).map Policy.text := by
  have matched := matchAuditChain_of_recorded (policySet_spec run.policySet).1 fun id =>
    (run.recorded.digest id).trans (recordedDigest_recordedDigests s.db.auditLog.rows id).symm
  have loaded : ∃ engine', loadStoredPolicies sha256 (fun _ => .ok (tablesOf s.db)) s.auditKeyring
      parseSources engine = .ok engine' := by
    simp only [loadStoredPolicies, run.policySet, matched, Engine.setStoredPolicies, parses]
    split_ifs
    · exact ⟨_, rfl⟩
    · exact ⟨_, rfl⟩
  obtain ⟨engine', loaded⟩ := loaded
  exact ⟨engine', loaded, (loadStoredPolicies_accepted loaded).texts⟩

end OmegaPlane.Policies
