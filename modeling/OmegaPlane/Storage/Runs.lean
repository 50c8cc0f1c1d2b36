import Mathlib.Logic.Relation
import OmegaPlane.Crypto.Sha256
import OmegaPlane.Storage.Effect

/-!
# Runs of one writer

The steps of a single writer process: its operations, each of which may fail at
any statement, restarts, enabling of keying and key rotation.  The chain
invariant holds in every state such a run reaches, and with it the chain
verifies.
-/

namespace OmegaPlane.Storage

open Audit Chain Transaction

variable {σ : Type} {sha256 : Bytes → Bytes} {s s' : Store σ}

/-! ## Steps -/

/-- A keyring change that keeps every key: keying may be enabled and keys may
be added. -/
def KeepsKeys : Option AuditKeyring → Option AuditKeyring → Prop
  | none, _ => True
  | some _, none => False
  | some old, some new => Extends old.keys new.keys

/-- One step of the writer. -/
inductive Step (sha256 : Bytes → Bytes) : Store σ → Store σ → Prop where
  | operate {s s' : Store σ} (operation : Operation sha256 s s') : Step sha256 s s'
  | reload (s : Store σ) (keyring keyring' : AuditKeyring) (file : KeyringPath)
      (loaded : s.auditKeyring = some keyring) (accepted : keyring.reload file = .ok keyring')
      (secretsKept : Extends keyring.keys keyring'.keys) :
      Step sha256 s { s with auditKeyring := some keyring' }
  | restart (s : Store σ) (keyring : Option AuditKeyring) (leader : Leadership)
      (keeps : KeepsKeys s.auditKeyring keyring) :
      Step sha256 s ⟨s.db, leader, keyring, false, none⟩

/-- The states of the runs on a fresh database. -/
def Reachable (sha256 : Bytes → Bytes) (s : Store σ) : Prop :=
  ∃ driver provisioned leader keyring,
    Relation.ReflTransGen (Step sha256) (Store.opened driver provisioned leader keyring) s

/-! ## The invariants -/

/-- What holds of the rows one by one and pair by pair, whatever rows are
missing: they are authentic under the loaded keys, and unkeyed rows lie before
keyed ones and before the epoch. -/
structure RowsInvariant (sha256 : Bytes → Bytes) (s : Store σ) : Prop where
  authentic : ∀ ev ∈ s.db.auditLog.rows, Authentic sha256 s.keySnap ev
  contiguous : s.db.auditLog.rows.Pairwise fun earlier later =>
    earlier.isUnkeyed = false → later.isUnkeyed = false
  beforeEpoch : ∀ ev ∈ s.db.auditLog.rows, ev.isUnkeyed = true →
    pastEpoch s.db.keyedFromSeq ev = false
  unkeyed : s.auditKeyring = none →
    s.db.keyedFromSeq = none ∧ ∀ ev ∈ s.db.auditLog.rows, ev.isUnkeyed = true

/-- The recorded epoch is the number of the first keyed row. -/
structure EpochInvariant (s : Store σ) : Prop where
  epoch : s.db.keyedFromSeq = (s.db.auditLog.rows.find? fun ev => !ev.isUnkeyed).map AuditEvent.seq
  recorded : s.keyedEpochRecorded = true → ∃ ev ∈ s.db.auditLog.rows, ev.isUnkeyed = false

/-- The rows are linked from the genesis hash on. -/
def LinkInvariant (s : Store σ) : Prop :=
  Linked AuditEvent.hash AuditEvent.prevHash genesisHash s.db.auditLog.rows

/-- The invariant of all runs of the writer. -/
structure ChainInvariant (sha256 : Bytes → Bytes) (s : Store σ) : Prop where
  rows : RowsInvariant sha256 s
  epoch : EpochInvariant s
  linked : LinkInvariant s

theorem chainInvariant_opened (driver : Driver) (provisioned : σ) (leader : Leadership)
    (keyring : Option AuditKeyring) :
    ChainInvariant sha256 (Store.opened driver provisioned leader keyring) where
  rows :=
    { authentic := by simp [Store.opened, Db.empty, AuditTable.empty]
      contiguous := List.Pairwise.nil
      beforeEpoch := by simp [Store.opened, Db.empty, AuditTable.empty]
      unkeyed := by simp [Store.opened, Db.empty, AuditTable.empty] }
  epoch := ⟨rfl, by simp [Store.opened]⟩
  linked := trivial

/-- The active key of a keyring is one of its keys, under an id that marks a
keyed row. -/
theorem active_spec (keyring : AuditKeyring) :
    keyring.snapshot.lookup keyring.active.1 = some keyring.active.2 ∧
      keyring.active.1 ≠ [] ∧ keyring.active.1 ≠ keyIDUnkeyed := by
  obtain ⟨secret, found⟩ := validateKeyset_active keyring.valid
  obtain ⟨before, after, split, -⟩ := List.lookup_eq_some_iff.mp found
  have member : (keyring.activeID, secret) ∈ keyring.keys := by
    rw [split]
    simp
  have checked := validateKey_of_ok (validateKeyset_key keyring.valid member)
  refine ⟨?_, checked.1, checked.2.1⟩
  simp [AuditKeyring.active, AuditKeyring.snapshot, found]

/-- A row is written under the key it names. -/
theorem rowKey_signingKey (s : Store σ) {ev : AuditEvent} (keyID : ev.keyID = s.signingKey.1) :
    rowKey s.keySnap ev = some s.signingKey.2 ∧ ev.isUnkeyed = s.auditKeyring.isNone := by
  cases loaded : s.auditKeyring with
  | none =>
    have unkeyed : ev.isUnkeyed = true := by
      simp [AuditEvent.isUnkeyed, keyID, Store.signingKey, loaded]
    simp [rowKey, unkeyed, Store.signingKey, loaded]
  | some keyring =>
    obtain ⟨found, notEmpty, notReserved⟩ := active_spec keyring
    have keyIDEq : ev.keyID = keyring.active.1 := by
      rw [keyID, Store.signingKey, loaded]
    have keyed : ev.isUnkeyed = false := by
      simp [AuditEvent.isUnkeyed, keyIDEq, notEmpty, notReserved]
    simp [rowKey, keyed, Store.signingKey, Store.keySnap, loaded, keyIDEq, found]

/-! ## Appending a row -/

section Appending

variable {s s' : Store σ} {call : Call} {draft : AuditDraft} {ev : AuditEvent}

/-- The row a store writes names a key it holds, the reserved id without a
keyring. -/
theorem WritesRow.key (writes : WritesRow sha256 s call draft s.db ev s'.db) :
    ev.keyID = s.signingKey.1 ∧ rowKey s.keySnap ev = some s.signingKey.2 ∧
      ev.isUnkeyed = s.auditKeyring.isNone := by
  have keyID : ev.keyID = s.signingKey.1 := by
    rw [writes.row]
    rfl
  exact ⟨keyID, rowKey_signingKey s keyID⟩

theorem RowsInvariant.appended (invariant : RowsInvariant sha256 s)
    (keyring : s'.auditKeyring = s.auditKeyring)
    (writes : WritesRow sha256 s call draft s.db ev s'.db) : RowsInvariant sha256 s' := by
  have snaps : s'.keySnap = s.keySnap := by rw [Store.keySnap, Store.keySnap, keyring]
  obtain ⟨keyID, resolved, kind⟩ := writes.key
  constructor
  · rw [writes.rows, snaps]
    intro row member
    rcases List.mem_append.mp member with old | new
    · exact invariant.authentic row old
    rw [List.mem_singleton.mp new, writes.row]
    apply authentic_sealRow
    rw [← resolved]
    exact rowKey_congr keyID.symm
  · rw [writes.rows, List.pairwise_append]
    refine ⟨invariant.contiguous, List.pairwise_singleton _ _, ?_⟩
    intro earlier member later laterMember keyed
    rw [List.mem_singleton.mp laterMember, kind]
    cases loaded : s.auditKeyring with
    | none =>
      rw [(invariant.unkeyed loaded).2 earlier member] at keyed
      contradiction
    | some => rfl
  · rw [writes.rows]
    intro row member unkeyed
    rcases List.mem_append.mp member with old | new
    · exact writes.pastEpoch_eq_false old (invariant.beforeEpoch row old unkeyed)
    -- the new row is unkeyed only while no epoch is recorded
    rw [List.mem_singleton.mp new, kind] at unkeyed
    have noKeyring : s.auditKeyring = none := by simpa using unkeyed
    rw [writes.keyedFromSeq]
    simp [noKeyring, (invariant.unkeyed noKeyring).1, pastEpoch]
  · rw [writes.rows, writes.keyedFromSeq, keyring]
    intro noKeyring
    constructor
    · simp [noKeyring, (invariant.unkeyed noKeyring).1]
    intro row member
    rcases List.mem_append.mp member with old | new
    · exact (invariant.unkeyed noKeyring).2 row old
    · rw [List.mem_singleton.mp new, kind, noKeyring]
      rfl

theorem EpochInvariant.appended (invariant : EpochInvariant s)
    (writes : WritesRow sha256 s call draft s.db ev s'.db)
    (recorded : s'.keyedEpochRecorded = true →
      s.keyedEpochRecorded = true ∨ s.auditKeyring.isSome = true) : EpochInvariant s' := by
  have kind := writes.key.2.2
  constructor
  · rw [writes.keyedFromSeq, writes.rows, List.find?_append, invariant.epoch]
    cases first : s.db.auditLog.rows.find? fun row => !row.isUnkeyed with
    | some =>
      -- the epoch is recorded already, so recording it again changes nothing
      split <;> simp
    | none =>
      have notRecorded : s.keyedEpochRecorded = false := by
        by_contra flag
        obtain ⟨row, member, keyed⟩ := invariant.recorded (by simpa using flag)
        have absent := List.find?_eq_none.mp first row member
        simp [keyed] at absent
      cases loaded : s.auditKeyring with
      | none => simp [kind, loaded]
      | some => simp [kind, loaded, notRecorded]
  · intro flag
    rw [writes.rows]
    rcases recorded flag with before | loaded
    · obtain ⟨row, member, keyed⟩ := invariant.recorded before
      exact ⟨row, by simp [member], keyed⟩
    · exact ⟨ev, by simp, by simpa [kind] using loaded⟩

theorem LinkInvariant.appended (invariant : LinkInvariant s)
    (writes : WritesRow sha256 s call draft s.db ev s'.db) : LinkInvariant s' := by
  rw [LinkInvariant, writes.rows, linked_concat]
  exact ⟨invariant, writes.prevHash⟩

end Appending

/-! ## Other steps -/

theorem RowsInvariant.kept (invariant : RowsInvariant sha256 s)
    (keyring : s'.auditKeyring = s.auditKeyring) (audit : KeepsAudit s.db s'.db) :
    RowsInvariant sha256 s' := by
  have snaps : s'.keySnap = s.keySnap := by rw [Store.keySnap, Store.keySnap, keyring]
  constructor
  · rw [audit.auditLog, snaps]
    exact invariant.authentic
  · rw [audit.auditLog]
    exact invariant.contiguous
  · rw [audit.auditLog, audit.keyedFromSeq]
    exact invariant.beforeEpoch
  · rw [audit.auditLog, audit.keyedFromSeq, keyring]
    exact invariant.unkeyed

theorem RowsInvariant.rekeyed (invariant : RowsInvariant sha256 s) (db : s'.db = s.db)
    (keeps : KeepsKeys s.auditKeyring s'.auditKeyring) :
    RowsInvariant sha256 s' := by
  constructor
  · rw [db]
    intro ev member
    have authentic := invariant.authentic ev member
    cases before : s.auditKeyring with
    | none => exact authentic.of_unkeyed ((invariant.unkeyed before).2 ev member)
    | some =>
    cases after : s'.auditKeyring with
    | none => simp [KeepsKeys, before, after] at keeps
    | some =>
    rw [before, after] at keeps
    rw [Store.keySnap, before] at authentic
    rw [Store.keySnap, after]
    exact authentic.of_extends keeps
  · rw [db]
    exact invariant.contiguous
  · rw [db]
    exact invariant.beforeEpoch
  · rw [db]
    intro noKeyring
    cases before : s.auditKeyring with
    | none => exact invariant.unkeyed before
    | some => simp [KeepsKeys, before, noKeyring] at keeps

/-- All a step can do to the chain: what an operation does, or a change of the
keyring that keeps every key. -/
theorem Step.cases (step : Step sha256 s s') :
    (s'.auditKeyring = s.auditKeyring ∧ ChainEffect sha256 s s') ∨
      (s'.db = s.db ∧ KeepsKeys s.auditKeyring s'.auditKeyring ∧
        (s'.keyedEpochRecorded = true → s.keyedEpochRecorded = true)) := by
  cases step with
  | operate operation => exact .inl operation.effect
  | reload keyring keyring' file loaded accepted secretsKept =>
    refine .inr ⟨rfl, ?_, fun flag => flag⟩
    rw [loaded]
    exact secretsKept
  | restart keyring leader keeps => exact .inr ⟨rfl, keeps, by simp⟩

theorem RowsInvariant.step (invariant : RowsInvariant sha256 s) (step : Step sha256 s s') :
    RowsInvariant sha256 s' := by
  rcases step.cases with ⟨keyring, effect⟩ | ⟨db, keeps, -⟩
  · cases effect with
    | kept audit => exact invariant.kept keyring audit
    | appended call draft ev writes => exact invariant.appended keyring writes
  · exact invariant.rekeyed db keeps

theorem EpochInvariant.step (invariant : EpochInvariant s) (step : Step sha256 s s') :
    EpochInvariant s' := by
  rcases step.cases with ⟨keyring, effect⟩ | ⟨db, keeps, recorded⟩
  · cases effect with
    | kept audit recorded =>
      constructor
      · rw [audit.auditLog, audit.keyedFromSeq]
        exact invariant.epoch
      · rw [audit.auditLog, recorded]
        exact invariant.recorded
    | appended call draft ev writes recorded => exact invariant.appended writes recorded
  · constructor
    · rw [db]
      exact invariant.epoch
    · rw [db]
      exact fun flag => invariant.recorded (recorded flag)

theorem LinkInvariant.step (invariant : LinkInvariant s) (step : Step sha256 s s') :
    LinkInvariant s' := by
  rcases step.cases with ⟨keyring, effect⟩ | ⟨db, keeps, -⟩
  · cases effect with
    | kept audit =>
      rw [LinkInvariant, audit.auditLog]
      exact invariant
    | appended call draft ev writes => exact invariant.appended writes
  · rw [LinkInvariant, db]
    exact invariant

theorem Reachable.chainInvariant (reachable : Reachable sha256 s) : ChainInvariant sha256 s := by
  obtain ⟨driver, provisioned, leader, keyring, run⟩ := reachable
  induction run with
  | refl => exact chainInvariant_opened driver provisioned leader keyring
  | tail _ step ih => exact ⟨ih.rows.step step, ih.epoch.step step, ih.linked.step step⟩

/-! ## The invariant verifies -/

/-- With the row invariant, no unkeyed row is out of place. -/
theorem RowsInvariant.noDowngrade (invariant : RowsInvariant sha256 s) :
    NoDowngrade s.keySnap s.readEpoch false s.db.auditLog.rows := by
  constructor
  · intro loaded ev member unkeyed
    have keyringLoaded : s.auditKeyring.isSome = true := by
      simpa [Store.keySnap] using loaded
    rw [Store.readEpoch, if_pos keyringLoaded]
    exact invariant.beforeEpoch ev member unkeyed
  · simp
  · exact fun _ => invariant.contiguous

/-- With the row invariant, acceptance is linkage. -/
theorem RowsInvariant.accepts_iff_linked (invariant : RowsInvariant sha256 s) :
    Accepts sha256 s.keySnap s.readEpoch genesisHash false s.db.auditLog.rows ↔
      LinkInvariant s := by
  have numbered : ∀ ev ∈ s.db.auditLog.rows, ev.seq ≠ 0 := fun ev member =>
    (s.db.auditLog.assigned ev member).1.ne'
  rw [accepts_iff numbered]
  constructor
  · exact fun accepted => accepted.1
  · exact fun linked => ⟨linked, invariant.authentic, invariant.noDowngrade⟩

/-- In every state a run of one writer reaches, the chain verifies, every row is
counted and the head is the last row's hash. -/
theorem verifyAudit_of_reachable {s : Store σ} (reachable : Reachable sha256 s) :
    verifyAudit sha256 s none =
      { valid := true
        firstBadSeq := 0
        truncated := false
        count := s.db.auditLog.rows.length
        headHash := (s.db.auditLog.rows.getLast?.map AuditEvent.hash).getD genesisHash } := by
  have invariant := reachable.chainInvariant
  have accepted := invariant.rows.accepts_iff_linked.mpr invariant.linked
  rw [verifyAudit, verifyRows_of_accepts accepted]
  rfl

/-- A store after an unkeyed row, a restart with a keyring and a keyed row. -/
def sampleStore : Store Unit :=
  let unkeyed := (appendAudit Crypto.Sha256.sum
    (Store.opened .sqlite () ⟨false, false⟩ none) (.clean 1) { kind := ascii "svid.issue" }).1
  (appendAudit Crypto.Sha256.sum ⟨unkeyed.db, ⟨false, false⟩, some sampleKeyring, false, none⟩
    (.clean 2) { kind := ascii "policy.create" }).1

theorem verifyAudit_of_reachable_sampleStore :
    verifyAudit Crypto.Sha256.sum sampleStore none =
      { valid := true
        firstBadSeq := 0
        truncated := false
        count := 2
        headHash :=
          (sampleStore.db.auditLog.rows.getLast?.map AuditEvent.hash).getD genesisHash } :=
  verifyAudit_of_reachable
    ⟨.sqlite, (), ⟨false, false⟩, none,
      Relation.ReflTransGen.refl.tail (.operate (.append _ _ _))
        |>.tail (.restart _ (some sampleKeyring) ⟨false, false⟩ trivial)
        |>.tail (.operate (.append _ _ _))⟩

end OmegaPlane.Storage
