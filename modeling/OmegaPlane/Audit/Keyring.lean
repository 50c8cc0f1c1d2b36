import OmegaPlane.Audit.Event
import OmegaPlane.Data.Base64
import OmegaPlane.Data.Text

/-!
# The audit keyring

The operator's key file and the key set loaded from it.  A keyring value
carries the proof that its key set passed `validateKeyset`, which is checked on
every path that builds or replaces one.
-/

namespace OmegaPlane.Audit

/-- Key ids with their secrets. -/
abbrev KeySet := List (Bytes × Bytes)

/-- A key set holds every key of another, with its secret. -/
def Extends (old new : KeySet) : Prop :=
  ∀ id secret, old.lookup id = some secret → new.lookup id = some secret

/-- Shortest accepted secret, in bytes. -/
def minAuditKeyBytes : Nat := 16

/-- Refusals of the keyring loader, with the values their texts name. -/
inductive KeyringError where
  | notFileBacked
  | unreadable
  | looseMode (mode : Nat)
  | malformed
  | duplicateID (id : Bytes)
  | badSecret (id : Bytes)
  | activeRequired
  | reserved (id : Bytes)
  | noKeys
  | activeMissing (id : Bytes)
  | emptyID
  | shortSecret (id : Bytes) (length : Nat)
  | wouldDrop (id : Bytes)
  deriving DecidableEq

/-- The checks on one key of a set. -/
def validateKey (id secret : Bytes) : Except KeyringError Unit :=
  if Text.trimSpace id = [] then .error .emptyID
  else if id = keyIDUnkeyed then .error (.reserved keyIDUnkeyed)
  else if secret.length < minAuditKeyBytes then .error (.shortSecret id secret.length)
  else .ok ()

/-- The checks on every key of a set; the first refusal is returned. -/
def validateKeys : KeySet → Except KeyringError Unit
  | [] => .ok ()
  | key :: rest =>
    match validateKey key.1 key.2 with
    | .error err => .error err
    | .ok () => validateKeys rest

def validateKeyset (activeID : Bytes) (keys : KeySet) : Except KeyringError Unit :=
  if Text.trimSpace activeID = [] then .error .activeRequired
  else if activeID = keyIDUnkeyed then .error (.reserved keyIDUnkeyed)
  else if keys.length = 0 then .error .noKeys
  else if (keys.lookup activeID).isNone then .error (.activeMissing activeID)
  else validateKeys keys

/-- A key set in use.  `path` is empty when it was not loaded from a file. -/
structure AuditKeyring where
  path : Bytes
  activeID : Bytes
  keys : KeySet
  valid : validateKeyset activeID keys = .ok ()

namespace AuditKeyring

/-- The key id and secret for new rows. -/
def active (kr : AuditKeyring) : Bytes × Bytes :=
  (kr.activeID, (kr.keys.lookup kr.activeID).getD [])

/-- The id-to-secret map a verification walk reads. -/
def snapshot (kr : AuditKeyring) : KeySet :=
  kr.keys

end AuditKeyring

/-- The JSON content of a keyring file. -/
structure AuditKeyringFile where
  activeKeyID : Bytes
  keys : List (Bytes × Bytes)

/-- What opening and reading the keyring path yields: nothing when it cannot be
read, else its permission bits and its content when that is the expected JSON. -/
abbrev KeyringPath := Option (Nat × Option AuditKeyringFile)

/-- Decode the listed keys, refusing a repeated id. -/
def readKeys : KeySet → List (Bytes × Bytes) → Except KeyringError KeySet
  | keys, [] => .ok keys
  | keys, (rawID, secretText) :: rest =>
    let id := Text.trimSpace rawID
    if (keys.lookup id).isSome then .error (.duplicateID id)
    else
      match Base64.decodeString (Text.trimSpace secretText) with
      | none => .error (.badSecret id)
      | some secret => readKeys (keys ++ [(id, secret)]) rest

/-- Read a keyring file that only its owner may access. -/
def readKeyringFile (file : KeyringPath) : Except KeyringError (Bytes × KeySet) :=
  match file with
  | none => .error .unreadable
  | some (mode, content) =>
    if mode &&& 0o077 ≠ 0 then .error (.looseMode mode)
    else
      match content with
      | none => .error .malformed
      | some parsed => do
        let keys ← readKeys [] parsed.keys
        .ok (Text.trimSpace parsed.activeKeyID, keys)

/-- The first loaded id that the new set lacks. -/
def droppedKey (old new : KeySet) : Option Bytes :=
  (old.find? fun key => (new.lookup key.1).isNone).map Prod.fst

namespace AuditKeyring

/-- Re-read the file and replace the key set.  The new set has to hold every
loaded id. -/
def reload (kr : AuditKeyring) (file : KeyringPath) : Except KeyringError AuditKeyring :=
  if kr.path = [] then .error .notFileBacked
  else
    match readKeyringFile file with
    | .error err => .error err
    | .ok (activeID, keys) =>
      match checked : validateKeyset activeID keys with
      | .error err => .error err
      | .ok () =>
        match droppedKey kr.keys keys with
        | some id => .error (.wouldDrop id)
        | none => .ok ⟨kr.path, activeID, keys, checked⟩

end AuditKeyring

theorem validateKey_of_ok {id secret : Bytes} (ok : validateKey id secret = .ok ()) :
    id ≠ [] ∧ id ≠ keyIDUnkeyed ∧ 16 ≤ secret.length := by
  unfold validateKey at ok
  split at ok
  · contradiction
  split at ok
  · contradiction
  split at ok
  · contradiction
  rename_i notBlank notReserved notShort
  refine ⟨?_, notReserved, not_lt.mp notShort⟩
  rintro rfl
  exact notBlank rfl

variable {keys : KeySet}

variable {key : Bytes × Bytes} {activeID : Bytes}

theorem validateKeys_of_mem (ok : validateKeys keys = .ok ()) (member : key ∈ keys) :
    validateKey key.1 key.2 = .ok () := by
  induction keys with
  | nil => simp at member
  | cons first rest ih =>
  rw [validateKeys] at ok
  cases firstCheck : validateKey first.1 first.2 with
  | error =>
    rw [firstCheck] at ok
    contradiction
  | ok =>
    rw [firstCheck] at ok
    rcases List.mem_cons.mp member with rfl | later
    · exact firstCheck
    · exact ih ok later

/-- What a validated key set guarantees: the active id names one of its keys. -/
theorem validateKeyset_active (ok : validateKeyset activeID keys = .ok ()) :
    ∃ secret, keys.lookup activeID = some secret := by
  unfold validateKeyset at ok
  split at ok
  · contradiction
  split at ok
  · contradiction
  split at ok
  · contradiction
  split at ok
  · contradiction
  · rename_i present
    exact Option.ne_none_iff_exists'.mp (by simpa using present)

/-- What a validated key set guarantees for each of its keys. -/
theorem validateKeyset_key (ok : validateKeyset activeID keys = .ok ()) (member : key ∈ keys) :
    validateKey key.1 key.2 = .ok () := by
  unfold validateKeyset at ok
  split at ok
  · contradiction
  split at ok
  · contradiction
  split at ok
  · contradiction
  · split at ok
    · contradiction
    · exact validateKeys_of_mem ok member

/-- A keyring of one key. -/
def sampleKeyring : AuditKeyring where
  path := ascii "/etc/omega/audit-keys.json"
  activeID := ascii "k1"
  keys := [(ascii "k1", List.replicate 32 7)]
  valid := by decide

end OmegaPlane.Audit
