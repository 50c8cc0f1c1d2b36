import OmegaPlane.Crypto.Sha256
import OmegaPlane.Storage.Effect
import Mathlib.Logic.Relation

/-!
# Reloading the keyring

A reload checks that the file holds every loaded key id, but not that it holds
their secrets.  Rows stay verifiable through any run of operations and accepted
reloads in which every loaded id keeps its key block, that is its secret up to
the padding and hashing HMAC applies; a file that changes a secret is accepted
and strands the rows written under it.
-/

namespace OmegaPlane.Storage

open Audit Chain Crypto

variable {σ : Type} {sha256 : Bytes → Bytes} {id secret : Bytes} {keyring keyring' : AuditKeyring}
  {file : KeyringPath} {row : AuditEvent}

/-- Reload the keyring of a store on a signal; a refusal leaves it as it is. -/
def Store.reloadKeyring (s : Store σ) (file : KeyringPath) : Store σ × Except KeyringError Unit :=
  match s.auditKeyring with
  | none => (s, .error .notFileBacked)
  | some keyring =>
    match keyring.reload file with
    | .error err => (s, .error err)
    | .ok keyring' => ({ s with auditKeyring := some keyring' }, .ok ())

/-- The walk over the chain passes a row: it reports no failure up to and
including the row. -/
def RowAccepted (sha256 : Bytes → Bytes) (s : Store σ) (row : AuditEvent) : Prop :=
  ∃ before after, s.db.auditLog.rows = before ++ row :: after ∧
    (verifyRows sha256 s.keySnap s.readEpoch none (before ++ [row])).valid = true

/-- The file gives every loaded key id a secret with the same key block. -/
def KeepsKeyBlocks (sha256 : Bytes → Bytes) (keys : KeySet) (file : KeyringPath) : Prop :=
  ∀ activeID new, readKeyringFile file = .ok (activeID, new) →
    ∀ id secret secret', keys.lookup id = some secret → new.lookup id = some secret' →
      keyBlock sha256 64 secret' = keyBlock sha256 64 secret

/-- An operation, or a reload of a file that keeps the key blocks. -/
inductive ReloadStep (sha256 : Bytes → Bytes) : Store σ → Store σ → Prop where
  | operate {s s' : Store σ} (operation : Operation sha256 s s') : ReloadStep sha256 s s'
  | reload (s : Store σ) (file : KeyringPath)
      (keeps : ∀ keyring, s.auditKeyring = some keyring → KeepsKeyBlocks sha256 keyring.keys file) :
      ReloadStep sha256 s (s.reloadKeyring file).1

/-! ## An accepted reload -/

theorem lookup_of_droppedKey {old new : KeySet} (none : droppedKey old new = none)
    (found : old.lookup id = some secret) :
    ∃ secret', new.lookup id = some secret' := by
  obtain ⟨before, after, split, -⟩ := List.lookup_eq_some_iff.mp found
  have member : (id, secret) ∈ old := by
    rw [split]
    simp
  have kept := List.find?_eq_none.mp (Option.map_eq_none_iff.mp none) (id, secret) member
  exact Option.ne_none_iff_exists'.mp (by simpa using kept)

/-- What an accepted reload establishes: the file's keys are loaded, and every
loaded id is among them. -/
theorem reload_accepted (accepted : keyring.reload file = .ok keyring') :
    readKeyringFile file = .ok (keyring'.activeID, keyring'.keys) ∧
      droppedKey keyring.keys keyring'.keys = none := by
  unfold AuditKeyring.reload at accepted
  split at accepted
  · contradiction
  split at accepted
  · contradiction
  rename_i activeID keys parsed
  split at accepted
  · contradiction
  split at accepted
  · contradiction
  · rename_i kept
    cases accepted
    exact ⟨parsed, kept⟩

/-- A secret of a keyring is not empty. -/
theorem secret_ne_nil (found : keyring.keys.lookup id = some secret) : secret.length ≠ 0 := by
  obtain ⟨before, after, split, -⟩ := List.lookup_eq_some_iff.mp found
  have member : (id, secret) ∈ keyring.keys := by
    rw [split]
    simp
  have checked := (validateKey_of_ok (validateKeyset_key keyring.valid member)).2.2
  simp only at checked
  omega

/-- A row authentic under the old keys is authentic under new ones with the same
key blocks. -/
theorem authentic_reload (accepted : keyring.reload file = .ok keyring')
    (keeps : KeepsKeyBlocks sha256 keyring.keys file) {ev : AuditEvent}
    (authentic : Authentic sha256 (some keyring.snapshot) ev) :
    Authentic sha256 (some keyring'.snapshot) ev := by
  obtain ⟨parsed, kept⟩ := reload_accepted accepted
  by_cases unkeyed : ev.isUnkeyed = true
  · exact authentic.of_unkeyed unkeyed
  obtain ⟨secret, resolved, decoded⟩ := authentic
  have found : keyring.keys.lookup ev.keyID = some secret := by
    simpa [rowKey, unkeyed, AuditKeyring.snapshot] using resolved
  obtain ⟨secret', found'⟩ := lookup_of_droppedKey kept found
  have blocks := keeps _ _ parsed ev.keyID secret secret' found found'
  refine ⟨secret', ?_, ?_⟩
  · simpa [rowKey, unkeyed, AuditKeyring.snapshot] using found'
  · rw [decoded]
    simp only [macAuditEvent, macInput, secret_ne_nil found, secret_ne_nil found', if_false,
      hmac_eq_of_keyBlock_eq blocks]

/-! ## Runs -/

variable {s : Store σ}

theorem RowAccepted.reload (accepted : RowAccepted sha256 s row)
    (keeps : ∀ keyring, s.auditKeyring = some keyring → KeepsKeyBlocks sha256 keyring.keys file) :
    RowAccepted sha256 (s.reloadKeyring file).1 row := by
  unfold Store.reloadKeyring
  split
  · exact accepted
  rename_i keyring loaded
  split
  · exact accepted
  rename_i keyring' reloaded
  obtain ⟨before, after, split, valid⟩ := accepted
  refine ⟨before, after, split, ?_⟩
  rw [verifyRows_none_valid_iff] at valid ⊢
  apply valid.imp
  intro ev _ prev seen passed
  rw [rowFails_eq_false_iff] at passed ⊢
  obtain ⟨link, authentic, notPast, notAfter⟩ := passed
  simp only [Store.keySnap, Store.readEpoch, loaded, Option.map_some, Option.isSome_some,
    if_true] at authentic notPast notAfter ⊢
  exact ⟨link, authentic_reload reloaded (keeps keyring loaded) authentic, notPast, notAfter⟩

theorem RowAccepted.operate {s' : Store σ} (accepted : RowAccepted sha256 s row)
    (operation : Operation sha256 s s') :
    RowAccepted sha256 s' row := by
  obtain ⟨keyring, effect⟩ := operation.effect
  have snaps : s'.keySnap = s.keySnap := by rw [Store.keySnap, Store.keySnap, keyring]
  obtain ⟨before, after, split, valid⟩ := accepted
  cases effect with
  | kept audit =>
    have epochs : s'.readEpoch = s.readEpoch := by
      rw [Store.readEpoch, Store.readEpoch, keyring, audit.keyedFromSeq]
    refine ⟨before, after, by rw [audit.auditLog]; exact split, ?_⟩
    rw [snaps, epochs]
    exact valid
  | appended call draft ev writes recorded =>
    refine ⟨before, after ++ [ev], by rw [writes.rows, split]; simp, ?_⟩
    rw [verifyRows_none_valid_iff] at valid ⊢
    rw [snaps]
    apply valid.imp
    intro old member prev seen passed
    rw [rowFails_eq_false_iff] at passed ⊢
    refine ⟨passed.1, passed.2.1, ?_, passed.2.2.2⟩
    intro loaded unkeyed
    have early := passed.2.2.1 loaded unkeyed
    have oldMember : old ∈ s.db.auditLog.rows := by
      rw [split]
      simp only [List.mem_append, List.mem_cons] at member ⊢
      tauto
    rw [Store.readEpoch, keyring]
    rw [Store.readEpoch] at early
    split
    · rename_i keyringLoaded
      rw [if_pos keyringLoaded] at early
      exact writes.pastEpoch_eq_false oldMember early
    · rfl

/-- Through every run of operations and reloads in which each accepted file keeps
the key blocks of the loaded ids, every row the walk passed stays passed. -/
theorem accepted_of_reloads {s s' : Store σ}
    (run : Relation.ReflTransGen (ReloadStep sha256) s s') {row : AuditEvent}
    (accepted : RowAccepted sha256 s row) : RowAccepted sha256 s' row := by
  induction run with
  | refl => exact accepted
  | tail _ step ih =>
    cases step with
    | operate operation => exact ih.operate operation
    | reload file keeps => exact ih.reload keeps

/-! ## A changed secret -/

/-- A store whose chain holds one row keyed under the sample keyring. -/
def keyedStore : Store Unit :=
  (appendAudit Sha256.sum (Store.opened .sqlite () ⟨false, false⟩ (some sampleKeyring))
    (.clean 1) { kind := ascii "svid.issue" }).1

/-- Its row. -/
def keyedRow : AuditEvent :=
  sealRow Sha256.sum
    (AuditDraft.row { kind := ascii "svid.issue" } 1 sampleKeyring.active.1 genesisHash 1)
    sampleKeyring.active.2

/-- A keyring file with one key under the id of the sample keyring. -/
def keyringFile (secret : Bytes) : KeyringPath :=
  some (0o600, some ⟨ascii "k1", [(ascii "k1", Base64.encodeToString secret)]⟩)

theorem keyedStore_rows : keyedStore.db.auditLog.rows = [keyedRow] := rfl

private theorem accepted_keyedRow : RowAccepted Sha256.sum keyedStore keyedRow := by
  refine ⟨[], [], keyedStore_rows, ?_⟩
  rw [verifyRows_none_valid_iff]
  refine ⟨.inr (rowFails_eq_false_iff.mpr ⟨rfl, ?_, ?_, ?_⟩), trivial⟩
  · apply authentic_sealRow
    decide
  · intro _ unkeyed
    exact absurd unkeyed (by decide)
  · simp

theorem accepted_of_reloads_keyedRow :
    RowAccepted Sha256.sum
      (keyedStore.reloadKeyring (keyringFile (List.replicate 32 7))).1 keyedRow := by
  apply accepted_of_reloads (Relation.ReflTransGen.single (.reload keyedStore _ ?_))
    accepted_keyedRow
  intro keyring loaded
  obtain rfl : sampleKeyring = keyring := Option.some.inj loaded
  intro activeID new parsed id secret secret' found found'
  have contents : readKeyringFile (keyringFile (List.replicate 32 7)) =
      .ok (ascii "k1", sampleKeyring.keys) := by
    decide
  obtain ⟨-, rfl⟩ := Prod.mk.inj (Except.ok.inj (contents.symm.trans parsed))
  rw [Option.some.inj (found.symm.trans found')]

/-- The code of the row under another secret is another one. -/
private theorem keyedRow_code_ne :
    macAuditEvent Sha256.sum keyedRow (List.replicate 32 8) ≠
      macAuditEvent Sha256.sum keyedRow (List.replicate 32 7) := by
  decide +kernel

/-- A reload that changes the secret under a loaded id is accepted, and the row
written under it no longer verifies. -/
theorem reload_strands_row :
    RowAccepted Sha256.sum keyedStore keyedRow ∧
    (keyedStore.reloadKeyring (keyringFile (List.replicate 32 8))).2 = .ok () ∧
    ¬RowAccepted Sha256.sum
      (keyedStore.reloadKeyring (keyringFile (List.replicate 32 8))).1 keyedRow := by
  refine ⟨accepted_keyedRow, by decide, ?_⟩
  rintro ⟨before, after, split, valid⟩
  have member : keyedRow ∈ before ++ [keyedRow] := by simp
  rw [verifyRows_none_valid_iff] at valid
  obtain ⟨key, resolved, decoded⟩ := valid.authentic member (by decide)
  have newKeys : (keyedStore.reloadKeyring (keyringFile (List.replicate 32 8))).1.keySnap =
      some [(ascii "k1", List.replicate 32 8)] := by
    decide
  rw [newKeys] at resolved
  have newKey : rowKey (some [(ascii "k1", List.replicate 32 8)]) keyedRow =
      some (List.replicate 32 8) := by
    decide
  obtain rfl := Option.some.inj (newKey.symm.trans resolved)
  have written : Hex.decodeString keyedRow.hash =
      some (macAuditEvent Sha256.sum keyedRow (List.replicate 32 7)) :=
    decodeString_sealRow_hash Sha256.sum _ _
  exact keyedRow_code_ne (Option.some.inj (decoded.symm.trans written))

end OmegaPlane.Storage
