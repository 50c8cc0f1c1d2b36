import OmegaPlane.Storage.Change
import OmegaPlane.Storage.Once

/-!
# What an operation does to the chain

Every operation of the store, whatever its database does to it, either leaves
the chain and its epoch as they are or appends one sealed row.
-/

namespace OmegaPlane.Storage

open Audit Chain Transaction

variable {σ : Type} {sha256 : Bytes → Bytes} {s s' : Store σ} {call : Call} {draft : AuditDraft}

/-- All an operation can do to the chain. -/
inductive ChainEffect (sha256 : Bytes → Bytes) (s s' : Store σ) : Prop where
  | kept (audit : KeepsAudit s.db s'.db)
      (recorded : s'.keyedEpochRecorded = s.keyedEpochRecorded)
  | appended (call : Call) (draft : AuditDraft) (ev : AuditEvent)
      (writes : WritesRow sha256 s call draft s.db ev s'.db)
      (recorded : s'.keyedEpochRecorded = true →
        s.keyedEpochRecorded = true ∨ s.auditKeyring.isSome = true)

theorem ChainEffect.refl (s : Store σ) : ChainEffect sha256 s s :=
  .kept ⟨rfl, rfl⟩ rfl

/-- An operation appended the row for a draft and left the policies. -/
structure Appends (sha256 : Bytes → Bytes) (s : Store σ) (call : Call) (draft : AuditDraft)
    (s' : Store σ) : Prop where
  writes : ∃ ev, WritesRow sha256 s call draft s.db ev s'.db
  policies : s'.db.policies = s.db.policies
  auditKeyring : s'.auditKeyring = s.auditKeyring
  recorded : s'.keyedEpochRecorded = true →
    s.keyedEpochRecorded = true ∨ s.auditKeyring.isSome = true

theorem Appends.effect (appends : Appends sha256 s call draft s') :
    s'.auditKeyring = s.auditKeyring ∧ ChainEffect sha256 s s' := by
  obtain ⟨ev, writes⟩ := appends.writes
  exact ⟨appends.auditKeyring, .appended call draft ev writes appends.recorded⟩

/-- The state after a commit, acknowledged or not. -/
theorem Appends.of_writes {ev : AuditEvent} {after : Db σ}
    (writes : WritesRow sha256 s call draft s.db ev after)
    (policies : after.policies = s.db.policies) :
    Appends sha256 s call draft { s with db := after } ∧
      Appends sha256 s call draft { s with db := after }.auditCommitted := by
  constructor
  · exact ⟨⟨ev, writes⟩, policies, rfl, .inl⟩
  refine ⟨⟨ev, ?_⟩, ?_, by simp, auditCommitted_recorded⟩
  · rw [auditCommitted_db]
    exact writes
  · rw [auditCommitted_db]
    exact policies

/-- An append fails and leaves the store, or it writes the row, acknowledged or not. -/
theorem appendAudit_cases (s : Store σ) (call : Call) (draft : AuditDraft) :
    (∃ err, appendAudit sha256 s call draft = (s, .error err)) ∨
      Appends sha256 s call draft (appendAudit sha256 s call draft).1 := by
  unfold appendAudit
  split
  · exact .inl ⟨_, rfl⟩
  split
  · exact .inl ⟨_, rfl⟩
  have yields : Yields (do return Ending.commit (← appendAuditTx sha256 s call draft)) s.db
      fun ending after => ∃ ev, ending = .commit ev ∧
        WritesRow sha256 s call draft s.db ev after ∧ after.policies = s.db.policies := by
    refine yields_bind (appendAuditTx_yields s call draft s.db) ?_
    rintro ev after ⟨writes, keeps⟩
    exact yields_pure ⟨ev, rfl, writes, keeps.policies⟩
  rcases transact_cases (.failed "audit: begin tx") (.failed "audit: commit") call.faults
      yields with
    ⟨err, ran⟩ | ⟨ev, after, ⟨_, impossible, -⟩, -⟩ | ⟨ev, after, ⟨_, same, writes, policies⟩, ran⟩
  · rw [ran]
    exact .inl ⟨err, rfl⟩
  · cases impossible
  · cases same
    rcases ran with ⟨-, ran⟩ | ⟨-, ran⟩
    · rw [ran]
      exact .inr (Appends.of_writes writes policies).2
    · rw [ran]
      exact .inr (Appends.of_writes writes policies).1

theorem appendAudit_outcome (s : Store σ) (call : Call) (draft : AuditDraft) :
    (appendAudit sha256 s call draft).1 = s ∨
      Appends sha256 s call draft (appendAudit sha256 s call draft).1 := by
  rcases @appendAudit_cases _ sha256 s call draft with ⟨err, failed⟩ | appends
  · rw [failed]
    exact .inl rfl
  · exact .inr appends

/-- A plain append uses no key. -/
theorem appendAudit_auditOnce (s : Store σ) (call : Call) (draft : AuditDraft) :
    (appendAudit sha256 s call draft).1.db.auditOnce = s.db.auditOnce := by
  unfold appendAudit
  split
  · rfl
  split
  · rfl
  have yields : Yields (do return Ending.commit (← appendAuditTx sha256 s call draft)) s.db
      fun ending after => (∃ ev, ending = .commit ev) ∧ after.auditOnce = s.db.auditOnce := by
    refine yields_bind (appendAuditTx_yields s call draft s.db) ?_
    rintro ev after ⟨-, keeps⟩
    exact yields_pure ⟨⟨ev, rfl⟩, keeps.auditOnce⟩
  rcases transact_cases (.failed "audit: begin tx") (.failed "audit: commit") call.faults
      yields with ⟨err, ran⟩ | ⟨ev, after, ⟨⟨_, impossible⟩, -⟩, -⟩ | ⟨ev, after, ⟨-, once⟩, ran⟩
  · rw [ran]
  · cases impossible
  rcases ran with ⟨-, ran⟩ | ⟨-, ran⟩
  · rw [ran]
    simpa only [auditCommitted_db] using once
  · rw [ran]
    exact once

theorem Appends.pruneOnce (appends : Appends sha256 s call draft s') :
    Appends sha256 s call draft (pruneOnce s' call) := by
  obtain ⟨ev, writes⟩ := appends.writes
  refine ⟨⟨ev, ?_⟩, ?_, ?_, ?_⟩
  · constructor
    · exact writes.row
    · simpa using writes.rows
    · simpa using writes.nextSeq
    · simpa using writes.keyedFromSeq
  · simpa using appends.policies
  · simpa using appends.auditKeyring
  · simpa using appends.recorded

/-- The event or a conflict row was written, or nothing. -/
theorem appendAuditOnce_outcome (s : Store σ) (call : Call) (key : Bytes) (draft : AuditDraft) :
    (appendAuditOnce sha256 s call key draft).1 = s ∨
      ∃ written, (written = draft ∨
          ∃ seen, written = conflictDraft key seen (eventDigest sha256 draft) draft) ∧
        Appends sha256 s call written (appendAuditOnce sha256 s call key draft).1 := by
  unfold appendAuditOnce
  split
  · exact .inl rfl
  split
  · exact .inl rfl
  rcases transact_cases (.failed "audit: begin tx") (.failed "audit: commit") call.faults
      (appendOnceTx_yields s call key draft s.db) with
    ⟨err, ran⟩ | ⟨appended, after, -, ran⟩ | ⟨appended, after, effect, ran⟩
  · rw [ran]
    exact .inl rfl
  · rw [ran]
    exact .inl rfl
  cases effect with
  | recorded ev free writes once driver policies =>
    refine .inr ⟨draft, .inl rfl, ?_⟩
    rcases ran with ⟨-, ran⟩ | ⟨-, ran⟩
    · rw [ran]
      exact (Appends.of_writes writes policies).2.pruneOnce
    · rw [ran]
      exact (Appends.of_writes writes policies).1
  | conflicting row ev taken different writes keeps =>
    refine .inr ⟨_, .inr ⟨row.digest, rfl⟩, ?_⟩
    rcases ran with ⟨-, ran⟩ | ⟨-, ran⟩
    · rw [ran]
      exact (Appends.of_writes writes keeps.policies).2
    · rw [ran]
      exact (Appends.of_writes writes keeps.policies).1

/-- A policy change that committed did what its transaction did. -/
theorem changePolicy_outcome (s : Store σ) (call : Call) (id : Bytes) (change : PolicyChange) :
    (changePolicy sha256 s call id change).1 = s ∨
      (changePolicy sha256 s call id change).1.auditKeyring = s.auditKeyring ∧
      ((changePolicy sha256 s call id change).1.keyedEpochRecorded = true →
        s.keyedEpochRecorded = true ∨ s.auditKeyring.isSome = true) ∧
      ∃ result, PolicyEffect sha256 s call id change s.db result
        (changePolicy sha256 s call id change).1.db := by
  unfold changePolicy
  split
  · exact .inl rfl
  rcases transact_cases (.failed "begin") (.failed "commit") call.faults
      (changePolicyTx_yields s call id change s.db) with
    ⟨err, ran⟩ | ⟨result, after, ⟨_, impossible, -⟩, -⟩ | ⟨result, after, ⟨_, same, effect⟩, ran⟩
  · rw [ran]
    exact .inl rfl
  · cases impossible
  cases same
  rcases ran with ⟨-, ran⟩ | ⟨-, ran⟩
  · rw [ran]
    refine .inr ⟨by simp, auditCommitted_recorded, result, ?_⟩
    rw [auditCommitted_db]
    exact effect
  · rw [ran]
    exact .inr ⟨rfl, .inl, result, effect⟩

/-- A provisioning call wrote the row it named, or none. -/
theorem scim_outcome (s : Store σ) (call : Call) (work : Provisioning σ) :
    (∃ db, (scim sha256 s call work).1 = { s with db := db } ∧ KeepsAudit s.db db ∧
        db.policies = s.db.policies) ∨
      ∃ draft, (∃ provisioned, work s.db.provisioned = .ok (draft, provisioned)) ∧
        Appends sha256 s call draft (scim sha256 s call work).1 := by
  unfold scim
  split
  · exact .inl ⟨s.db, rfl, ⟨rfl, rfl⟩, rfl⟩
  rcases transact_cases (.failed "begin") (.failed "commit") call.faults
      (scimTx_yields s call work s.db) with
    ⟨err, ran⟩ | ⟨result, after, ⟨_, impossible, -⟩, -⟩ | ⟨result, after, ⟨_, same, effect⟩, ran⟩
  · rw [ran]
    exact .inl ⟨s.db, rfl, ⟨rfl, rfl⟩, rfl⟩
  · cases impossible
  cases same
  cases effect with
  | silent audit policies =>
    rcases ran with ⟨-, ran⟩ | ⟨-, ran⟩ <;>
    · rw [ran]
      exact .inl ⟨after, rfl, audit, policies⟩
  | recorded draft ev named writes policies =>
    refine .inr ⟨draft, named, ?_⟩
    rcases ran with ⟨-, ran⟩ | ⟨-, ran⟩
    · rw [ran]
      exact (Appends.of_writes writes policies).2
    · rw [ran]
      exact (Appends.of_writes writes policies).1

/-- One operation of the writer, or a change of its leadership. -/
inductive Operation (sha256 : Bytes → Bytes) : Store σ → Store σ → Prop where
  | append (s : Store σ) (call : Call) (draft : AuditDraft) :
      Operation sha256 s (appendAudit sha256 s call draft).1
  | appendOnce (s : Store σ) (call : Call) (key : Bytes) (draft : AuditDraft) :
      Operation sha256 s (appendAuditOnce sha256 s call key draft).1
  | change (s : Store σ) (call : Call) (id : Bytes) (change : PolicyChange) :
      Operation sha256 s (changePolicy sha256 s call id change).1
  | scim (s : Store σ) (call : Call) (work : Provisioning σ) :
      Operation sha256 s (scim sha256 s call work).1
  | elect (s : Store σ) (leader : Leadership) : Operation sha256 s { s with leader := leader }

theorem Operation.effect (operation : Operation sha256 s s') :
    s'.auditKeyring = s.auditKeyring ∧ ChainEffect sha256 s s' := by
  cases operation with
  | append call draft =>
    rcases appendAudit_outcome s call draft with unchanged | appends
    · rw [unchanged]
      exact ⟨rfl, .refl s⟩
    · exact appends.effect
  | appendOnce call key draft =>
    rcases appendAuditOnce_outcome s call key draft with unchanged | ⟨_, -, appends⟩
    · rw [unchanged]
      exact ⟨rfl, .refl s⟩
    · exact appends.effect
  | change call id change =>
    rcases changePolicy_outcome s call id change with
      unchanged | ⟨keyring, recorded, result, effect⟩
    · rw [unchanged]
      exact ⟨rfl, .refl s⟩
    · obtain ⟨next, draft, -, -, -, writes⟩ := effect.decided
      exact ⟨keyring, .appended call draft result.2 writes recorded⟩
  | scim call work =>
    rcases scim_outcome s call work with ⟨db, after, audit, -⟩ | ⟨draft, -, appends⟩
    · rw [after]
      exact ⟨rfl, .kept audit rfl⟩
    · exact appends.effect
  | elect => exact ⟨rfl, .kept ⟨rfl, rfl⟩ rfl⟩

end OmegaPlane.Storage
