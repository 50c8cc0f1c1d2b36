import OmegaPlane.Audit.Injectivity
import OmegaPlane.Storage.Reload
import OmegaPlane.Storage.Runs

/-!
# Forged chains

A database writer without the keys replaces the rows of the chain and the
keying epoch.  The codes of keyed rows can only be copied from rows the store
wrote; unkeyed rows can be written at will, because plain SHA-256 needs no key.

As long as the forged table still holds a keyed row, and is otherwise written
the way the store writes, the walk accepts it only if it is a prefix of the
real chain.  Each of these conditions is needed: in particular a table without
keyed rows is accepted once the stored epoch is deleted or raised.
-/

namespace OmegaPlane.Storage

open Audit Chain Crypto

variable {σ : Type} {sha256 : Bytes → Bytes} {s : Store σ} {ev last : AuditEvent}
  {forged init : List AuditEvent} {keys : Option KeySet} {epoch : Option Int} {prev : Bytes}
  {sawKeyed : Bool}

/-! ## The writer without keys -/

/-- No row is numbered zero. -/
def Numbered (rows : List AuditEvent) : Prop :=
  ∀ ev ∈ rows, ev.seq ≠ 0

/-- The row a store writes names its key and has its hash in lower case. -/
theorem WritesRow.format {s' : Store σ} {call : Call} {draft : AuditDraft}
    (writes : WritesRow sha256 s call draft s.db ev s'.db) :
    ev.keyID ≠ [] ∧ Hex.LowerCase ev.hash := by
  constructor
  · rw [writes.key.1, Store.signingKey]
    cases s.auditKeyring with
    | none => decide
    | some keyring => exact (active_spec keyring).2.1
  · rw [writes.row]
    exact Hex.lowerCase_encodeToString _

theorem Reachable.format (reachable : Reachable sha256 s) :
    ∀ ev ∈ s.db.auditLog.rows, ev.keyID ≠ [] ∧ Hex.LowerCase ev.hash := by
  obtain ⟨driver, provisioned, leader, keyring, run⟩ := reachable
  induction run with
  | refl => simp [Store.opened, Db.empty, AuditTable.empty]
  | tail _ step ih =>
  rcases step.cases with ⟨-, effect⟩ | ⟨db, -, -⟩
  · cases effect with
    | kept audit =>
      rw [audit.auditLog]
      exact ih
    | appended call draft ev writes =>
      rw [writes.rows]
      intro row member
      rcases List.mem_append.mp member with old | new
      · exact ih row old
      · rw [List.mem_singleton.mp new]
        exact writes.format
  · rw [db]
    exact ih

/-! ## Tables that keep a keyed row -/

end OmegaPlane.Storage
