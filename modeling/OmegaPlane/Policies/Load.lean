import OmegaPlane.Policies.Manage

/-!
# Loading the stored policies

A replica takes the stored policies only if they match what the audit chain
records: the digest of each text is the one its latest change left in place, and
no policy the chain says is in place is missing.
-/

namespace OmegaPlane.Policies

open Audit Storage

/-- The tables a load reads. -/
structure Tables where
  auditLog : AuditLog
  keyedFromSeq : Option Int
  policies : Table Policy.id

/-- The tables of a database as they stand. -/
def tablesOf {σ : Type} (db : Db σ) : Tables :=
  ⟨db.auditLog.toAuditLog, db.keyedFromSeq, db.policies⟩

/-- What is wrong with a row of the chain. -/
inductive RowError where
  | unkeyedAfterKeying
  | keyNotHeld (keyID : Bytes)
  | macMismatch
  | payload
  deriving DecidableEq

/-- Why a set is not loaded. -/
inductive LoadError where
  | query (err : StoreError)
  | rowUnverified (seq : Int) (err : RowError)
  | keptChanging
  | differs (id digest recorded : Bytes)
  | missing (id : Bytes)
  | engine (message : Bytes)
  deriving DecidableEq

/-! ## What the chain records -/

/-- The rows of committed policy changes. -/
def isPolicyRow (ev : AuditEvent) : Bool :=
  (ev.kind = policyCreate ∨ ev.kind = policyUpdate ∨ ev.kind = policyDelete) ∧
    ev.decision = ascii "ok"

/-- The digest a change left in place, read from its payload. -/
def newDigest (payload : Bytes) : Option Bytes :=
  Json.unmarshalString (ascii "new_digest") payload

variable (sha256 : Bytes → Bytes)

/-- The check on one row: an unkeyed row is taken from before keying began, a
keyed one under a key that is held. -/
def checkAuditRowMAC (keys : KeySet) (epoch : Option Int) (ev : AuditEvent) :
    Except RowError Unit :=
  if ev.isUnkeyed then
    if pastEpoch epoch ev then .error .unkeyedAfterKeying else .ok ()
  else
    match keys.lookup ev.keyID with
    | none => .error (.keyNotHeld ev.keyID)
    | some key =>
      if Hex.decodeString ev.hash = some (macAuditEvent sha256 ev key) then .ok ()
      else .error .macMismatch

/-- Without a keyring rows are taken as they are. -/
def checkRow (keys : Option KeySet) (epoch : Option Int) (ev : AuditEvent) : Except RowError Unit :=
  match keys with
  | none => .ok ()
  | some keys => checkAuditRowMAC sha256 keys epoch ev

/-- Collect the digests row by row; a later row replaces an earlier one. -/
def collectDigests (keys : Option KeySet) (epoch : Option Int) :
    TextMap → List AuditEvent → Except LoadError TextMap
  | out, [] => .ok out
  | out, ev :: rest =>
    match checkRow sha256 keys epoch ev with
    | .error err => .error (.rowUnverified ev.seq err)
    | .ok () =>
      match newDigest ev.payload with
      | none => .error (.rowUnverified ev.seq .payload)
      | some digest => collectDigests keys epoch (out.put (ev.subject, digest)) rest

-- `view` is what each query of a load meets, in order
variable (view : Nat → Except StoreError Tables) (keyring : Option AuditKeyring)

/-- The epoch a load reads; without a keyring there is no query. -/
def readKeyedFrom (query : Nat) : Except LoadError (Option Int) :=
  match keyring with
  | none => .ok none
  | some _ =>
    match view query with
    | .error err => .error (.query err)
    | .ok tables => .ok tables.keyedFromSeq

/-- The digest of the text the latest change of each policy left in place,
empty after a delete. -/
def policyAuditDigests (query : Nat) : Except LoadError TextMap :=
  match readKeyedFrom view keyring query with
  | .error err => .error err
  | .ok epoch =>
    match view (query + 1) with
    | .error err => .error (.query err)
    | .ok tables =>
      collectDigests sha256 (keyring.map AuditKeyring.snapshot) epoch .empty
        (tables.auditLog.rows.filter isPolicyRow)

/-- The stored policies in the order of their ids. -/
def listPolicies (query : Nat) : Except LoadError (List Policy) :=
  match view query with
  | .error err => .error (.query err)
  | .ok tables => .ok (tables.policies.rows.insertionSort fun first second => first.id ≤ second.id)

/-- Read the policies between two equal reads of the digests, with some attempts
left. -/
def policySetFrom : Nat → Nat → TextMap → Except LoadError (List Policy × TextMap)
  | 0, _, _ => .error .keptChanging
  | attempts + 1, query, before =>
    match listPolicies view query with
    | .error err => .error err
    | .ok items =>
      match policyAuditDigests sha256 view keyring (query + 1) with
      | .error err => .error err
      | .ok after =>
        if before.same after then .ok (items, after)
        else policySetFrom attempts (query + 3) after

/-- The stored policies with the digests of the same moment. -/
def policySet : Except LoadError (List Policy × TextMap) :=
  match policyAuditDigests sha256 view keyring 0 with
  | .error err => .error err
  | .ok before => policySetFrom sha256 view keyring 3 2 before

/-! ## The comparison -/

/-- The recorded digest of an id, empty where there is no record. -/
def recordedDigest (recorded : TextMap) (id : Bytes) : Bytes :=
  ((recorded.lookup id).map Prod.snd).getD []

/-- Compare the stored policies with the recorded digests. -/
def matchAuditChain (items : List Policy) (recorded : TextMap) : Except LoadError Unit :=
  match items.find? fun p => recordedDigest recorded p.id ≠ policyDigest sha256 p.text with
  | some p =>
    .error (.differs p.id (policyDigest sha256 p.text) (recordedDigest recorded p.id))
  | none =>
    match recorded.rows.find? fun record =>
        record.2 ≠ [] ∧ !items.any fun p => p.id = record.1 with
    | some record => .error (.missing record.1)
    | none => .ok ()

/-! ## The load -/

variable (parseSources : List (Bytes × Bytes) → Except Bytes (List Bytes))

/-- The files with the stored policies under their source keys. -/
def unionSources (files stored : TextMap) : TextMap :=
  files.putAll (stored.rows.map fun entry => (storedPolicyKey entry.1, entry.2))

/-- Replace the stored policies; a set that does not parse leaves the engine as
it is. -/
def Engine.setStoredPolicies (engine : Engine) (stored : TextMap) : Except Bytes Engine :=
  if engine.stored.any fun cur => cur.same stored then .ok engine
  else
    match parseSources (unionSources engine.files stored).rows with
    | .error message => .error message
    | .ok _ => .ok { engine with stored := some stored }

/-- The texts by id. -/
def storedSet (items : List Policy) : TextMap :=
  Table.empty.putAll (items.map fun p => (p.id, p.text))

/-- Load the stored policies into the engine. -/
def loadStoredPolicies (engine : Engine) : Except LoadError Engine :=
  match policySet sha256 view keyring with
  | .error err => .error err
  | .ok (items, recorded) =>
    match matchAuditChain sha256 items recorded with
    | .error err => .error err
    | .ok () =>
      match engine.setStoredPolicies parseSources (storedSet items) with
      | .error message => .error (.engine message)
      | .ok engine' => .ok engine'

/-- The stored text an engine evaluates under an id. -/
def Engine.storedText (engine : Engine) (id : Bytes) : Option Bytes :=
  (engine.stored.bind fun stored => stored.lookup id).map Prod.snd

/-! ## What an accepted set is -/

theorem policyDigest_injective {sha256 : Bytes → Bytes} {first second : Bytes}
    (digests : policyDigest sha256 first = policyDigest sha256 second) :
    sha256 first = sha256 second := by
  have decoded := congrArg Hex.decodeString digests
  simpa [policyDigest] using decoded

/-- A text has a digest. -/
theorem policyDigest_ne_nil {sha256 : Bytes → Bytes} (sized : ∀ text, (sha256 text).length = 32)
    (text : Bytes) : policyDigest sha256 text ≠ [] := by
  intro empty
  have decoded := congrArg Hex.decodeString empty
  rw [policyDigest, Hex.decodeString_encodeToString] at decoded
  have lengths := sized text
  rw [Option.some.inj decoded] at lengths
  contradiction

/-- The latest committed change of a policy. -/
def latestChange (id : Bytes) (rows : List AuditEvent) : Option AuditEvent :=
  (rows.filter fun ev => isPolicyRow ev && ev.subject = id).getLast?

/-- The digests the rows record, by policy. -/
def recordedDigests (rows : List AuditEvent) : TextMap :=
  Table.empty.putAll ((rows.filter isPolicyRow).map fun ev =>
    (ev.subject, (newDigest ev.payload).getD []))

variable {sha256 view keyring parseSources}

variable {epoch : Option Int} {rows : List AuditEvent} {keys : Option KeySet} {out : TextMap}

theorem collectDigests_spec {out' : TextMap}
    (collected : collectDigests sha256 keys epoch out rows = .ok out') :
    (∀ ev ∈ rows, checkRow sha256 keys epoch ev = .ok ()) ∧
      out' = out.putAll (rows.map fun ev => (ev.subject, (newDigest ev.payload).getD [])) := by
  induction rows generalizing out with
  | nil =>
    obtain rfl := Except.ok.inj collected
    exact ⟨by simp, rfl⟩
  | cons ev rest ih =>
  unfold collectDigests at collected
  split at collected
  · contradiction
  rename_i passed
  split at collected
  · contradiction
  rename_i digest read
  obtain ⟨checked, rfl⟩ := ih collected
  refine ⟨?_, ?_⟩
  · intro row member
    rcases List.mem_cons.mp member with rfl | later
    · exact passed
    · exact checked row later
  · simp [Table.putAll, read]

theorem latestChange_eq_none {id : Bytes} :
    latestChange id rows = none ↔ ∀ row ∈ rows, isPolicyRow row = true → row.subject ≠ id := by
  rw [latestChange, List.getLast?_eq_none_iff, List.filter_eq_nil_iff]
  simp

/-- What is recorded for an id comes from its latest change. -/
theorem lookup_recordedDigests (rows : List AuditEvent) (id : Bytes) :
    (recordedDigests rows).lookup id =
      (latestChange id rows).map fun ev => (ev.subject, (newDigest ev.payload).getD []) := by
  have sameRows : (rows.filter isPolicyRow).filter ((fun record : Bytes × Bytes => record.1 = id) ∘
      fun ev => (ev.subject, (newDigest ev.payload).getD [])) =
        rows.filter fun ev => isPolicyRow ev && ev.subject = id := by
    rw [List.filter_filter]
    apply List.filter_congr
    intro ev _
    simp [Bool.and_comm]
  rw [recordedDigests, Table.lookup_putAll, List.filter_map, sameRows, List.getLast?_map]
  exact Option.or_none

/-- The digest recorded for an id is the one of its latest change. -/
theorem recordedDigest_recordedDigests (rows : List AuditEvent) (id : Bytes) :
    recordedDigest (recordedDigests rows) id =
      ((latestChange id rows).bind fun ev => newDigest ev.payload).getD [] := by
  rw [recordedDigest, lookup_recordedDigests]
  cases latestChange id rows with
  | none => rfl
  | some => simp

variable {query : Nat} {recorded : TextMap} {items : List Policy} {policies : Table Policy.id}
  {engine engine' : Engine} {tables : Tables}

theorem policySetFrom_spec {attempts : Nat} {before : TextMap}
    (read : policySetFrom sha256 view keyring attempts query before = .ok (items, recorded)) :
    ∃ query', listPolicies view query' = .ok items ∧
      policyAuditDigests sha256 view keyring (query' + 1) = .ok recorded := by
  induction attempts generalizing query before with
  | zero => contradiction
  | succ attempts ih =>
  unfold policySetFrom at read
  split at read
  · contradiction
  rename_i listed
  split at read
  · contradiction
  rename_i after digests
  split at read
  · obtain ⟨rfl, rfl⟩ := Prod.mk.inj (Except.ok.inj read)
    exact ⟨query, listed, digests⟩
  · exact ih read

theorem matchAuditChain_spec (matched : matchAuditChain sha256 items recorded = .ok ()) :
    (∀ p ∈ items, recordedDigest recorded p.id = policyDigest sha256 p.text) ∧
      ∀ id, recordedDigest recorded id ≠ [] → ∃ p ∈ items, p.id = id := by
  unfold matchAuditChain at matched
  split at matched
  · contradiction
  rename_i equal
  split at matched
  · contradiction
  rename_i present
  constructor
  · intro p member
    simpa using List.find?_eq_none.mp equal p member
  · intro id nonempty
    cases found : recorded.lookup id with
    | none => simp [recordedDigest, found] at nonempty
    | some record =>
      obtain ⟨member, rfl⟩ := Table.lookup_eq_some_iff.mp found
      have inPlace : record.2 ≠ [] := by simpa [recordedDigest, found] using nonempty
      simpa [inPlace] using List.find?_eq_none.mp present record member

theorem matchAuditChain_of_recorded (listed : items.Perm policies.rows)
    (digests : ∀ id, digestOf sha256 (policies.lookup id) = recordedDigest recorded id) :
    matchAuditChain sha256 items recorded = .ok () := by
  have equal : items.find? (fun p => recordedDigest recorded p.id ≠ policyDigest sha256 p.text) =
      none := by
    rw [List.find?_eq_none]
    intro p member
    have found : policies.lookup p.id = some p :=
      Table.lookup_eq_some_iff.mpr ⟨listed.mem_iff.mp member, rfl⟩
    have digest := digests p.id
    rw [found] at digest
    simp [← digest, digestOf]
  have present : recorded.rows.find? (fun record =>
      record.2 ≠ [] ∧ !items.any fun p => p.id = record.1) = none := by
    rw [List.find?_eq_none]
    intro record member
    have digest := digests record.1
    rw [recordedDigest, Table.lookup_eq_some_iff.mpr ⟨member, rfl⟩] at digest
    cases found : policies.lookup record.1 with
    | none =>
      rw [found] at digest
      simp [← (show ([] : Bytes) = record.2 from digest)]
    | some policy =>
      obtain ⟨policyMember, policyID⟩ := Table.lookup_eq_some_iff.mp found
      have some : ∃ p ∈ items, p.id = record.1 :=
        ⟨policy, listed.mem_iff.mpr policyMember, policyID⟩
      simpa using fun _ => some
  rw [matchAuditChain, equal]
  simp only
  rw [present]

/-- The comparison passes exactly when the digest of every stored text is the
recorded one. -/
theorem matchAuditChain_iff (listed : items.Perm policies.rows) :
    matchAuditChain sha256 items recorded = .ok () ↔
      ∀ id, digestOf sha256 (policies.lookup id) = recordedDigest recorded id := by
  constructor
  · intro matched id
    obtain ⟨equal, present⟩ := matchAuditChain_spec matched
    cases found : policies.lookup id with
    | none =>
      -- a recorded digest would need a stored policy
      by_contra nonempty
      obtain ⟨p, member, idEq⟩ := present id (Ne.symm nonempty)
      exact Table.lookup_eq_none_iff.mp found p (listed.mem_iff.mp member) idEq
    | some policy =>
      obtain ⟨member, rfl⟩ := Table.lookup_eq_some_iff.mp found
      exact (equal policy (listed.mem_iff.mpr member)).symm
  · exact matchAuditChain_of_recorded listed

theorem setStoredPolicies_spec {stored : TextMap}
    (set : engine.setStoredPolicies parseSources stored = .ok engine') (id : Bytes) :
    engine'.storedText id = (stored.lookup id).map Prod.snd := by
  unfold Engine.setStoredPolicies at set
  split at set
  · rename_i unchanged
    obtain rfl := Except.ok.inj set
    cases loaded : engine.stored with
    | none => simp [loaded] at unchanged
    | some cur =>
      have same : cur.same stored = true := by simpa [loaded] using unchanged
      rw [Engine.storedText, loaded, Option.bind_some, Table.lookup_eq_of_same same]
  · split at set
    · contradiction
    · obtain rfl := Except.ok.inj set
      rfl

/-- The texts of a table of policies, by id. -/
theorem lookup_storedSet (listed : items.Perm policies.rows) (id : Bytes) :
    ((storedSet items).lookup id).map Prod.snd = (policies.lookup id).map Policy.text := by
  rw [storedSet, Table.lookup_putAll]
  change (Option.or _ none).map _ = _
  rw [Option.or_none]
  cases found : policies.lookup id with
  | none =>
    have absent : (items.map fun p => (p.id, p.text)).filter (fun entry => entry.1 = id) = [] := by
      rw [List.filter_eq_nil_iff]
      intro entry member
      obtain ⟨p, listedP, rfl⟩ := List.mem_map.mp member
      simpa using Table.lookup_eq_none_iff.mp found p (listed.mem_iff.mp listedP)
    rw [absent]
    rfl
  | some policy =>
    obtain ⟨member, idEq⟩ := Table.lookup_eq_some_iff.mp found
    cases last : ((items.map fun p => (p.id, p.text)).filter
        fun entry => entry.1 = id).getLast? with
    | none =>
      have absent := List.filter_eq_nil_iff.mp (List.getLast?_eq_none_iff.mp last)
        (policy.id, policy.text) (List.mem_map.mpr ⟨policy, listed.mem_iff.mpr member, rfl⟩)
      exact absurd idEq (by simpa using absent)
    | some =>
      obtain ⟨entryMember, entryID⟩ := List.mem_filter.mp (List.mem_of_getLast? last)
      obtain ⟨p, listedP, rfl⟩ := List.mem_map.mp entryMember
      have lookedUp : policies.lookup id = some p :=
        Table.lookup_eq_some_iff.mpr ⟨listed.mem_iff.mp listedP, by simpa using entryID⟩
      obtain rfl := Option.some.inj (found.symm.trans lookedUp)
      rfl

/-- What holds of the tables a set was accepted from and the engine it was
loaded into. -/
structure Accepted (sha256 : Bytes → Bytes) (keyring : Option AuditKeyring) (tables : Tables)
    (engine : Engine) : Prop where
  checked : ∀ ev ∈ tables.auditLog.rows, isPolicyRow ev = true → ∀ loaded, keyring = some loaded →
    checkAuditRowMAC sha256 loaded.snapshot tables.keyedFromSeq ev = .ok ()
  recorded : ∀ id, digestOf sha256 (tables.policies.lookup id) =
    ((latestChange id tables.auditLog.rows).bind fun ev => newDigest ev.payload).getD []
  texts : ∀ id, engine.storedText id = (tables.policies.lookup id).map Policy.text

theorem policyAuditDigests_spec
    (read : policyAuditDigests sha256 (fun _ => .ok tables) keyring query = .ok recorded) :
    (∀ ev ∈ tables.auditLog.rows, isPolicyRow ev = true → ∀ loaded, keyring = some loaded →
      checkAuditRowMAC sha256 loaded.snapshot tables.keyedFromSeq ev = .ok ()) ∧
    ∀ id, recordedDigest recorded id =
      ((latestChange id tables.auditLog.rows).bind fun ev => newDigest ev.payload).getD [] := by
  unfold policyAuditDigests at read
  split at read
  · contradiction
  rename_i epoch epochRead
  obtain ⟨checked, rfl⟩ := collectDigests_spec read
  refine ⟨?_, recordedDigest_recordedDigests tables.auditLog.rows⟩
  intro ev member policyRow loaded keyringEq
  subst keyringEq
  obtain rfl : tables.keyedFromSeq = epoch := Except.ok.inj epochRead
  exact checked ev (List.mem_filter.mpr ⟨member, policyRow⟩)

theorem policySet_spec
    (read : policySet sha256 (fun _ => .ok tables) keyring = .ok (items, recorded)) :
    items.Perm tables.policies.rows ∧
    (∀ ev ∈ tables.auditLog.rows, isPolicyRow ev = true → ∀ loaded, keyring = some loaded →
      checkAuditRowMAC sha256 loaded.snapshot tables.keyedFromSeq ev = .ok ()) ∧
    ∀ id, recordedDigest recorded id =
      ((latestChange id tables.auditLog.rows).bind fun ev => newDigest ev.payload).getD [] := by
  unfold policySet at read
  split at read
  · contradiction
  obtain ⟨query, listed, digests⟩ := policySetFrom_spec read
  refine ⟨?_, policyAuditDigests_spec digests⟩
  rw [← Except.ok.inj listed]
  exact List.perm_insertionSort _ _

/-- A load of unchanging tables accepts only what the chain records. -/
theorem loadStoredPolicies_accepted
    (accepted : loadStoredPolicies sha256 (fun _ => .ok tables) keyring parseSources engine =
      .ok engine') : Accepted sha256 keyring tables engine' := by
  unfold loadStoredPolicies at accepted
  split at accepted
  · contradiction
  rename_i items recorded read
  split at accepted
  · contradiction
  rename_i matched
  split at accepted
  · contradiction
  rename_i set
  obtain rfl := Except.ok.inj accepted
  obtain ⟨listed, checked, recordedEq⟩ := policySet_spec read
  constructor
  · exact checked
  · intro id
    rw [← recordedEq]
    exact (matchAuditChain_iff listed).mp matched id
  · intro id
    rw [setStoredPolicies_spec set, lookup_storedSet listed]

/-! ## What is accepted -/

theorem collectDigests_of_checked
    (checked : ∀ ev ∈ rows, checkRow sha256 keys epoch ev = .ok () ∧ newDigest ev.payload ≠ none) :
    collectDigests sha256 keys epoch out rows =
      .ok (out.putAll (rows.map fun ev => (ev.subject, (newDigest ev.payload).getD []))) := by
  induction rows generalizing out with
  | nil => rfl
  | cons ev rest ih =>
  obtain ⟨passed, readable⟩ := checked ev (by simp)
  obtain ⟨digest, read⟩ := Option.ne_none_iff_exists'.mp readable
  rw [collectDigests, passed, read]
  simp only
  rw [ih fun row member => checked row (by simp [member])]
  simp [Table.putAll, read]

/-- The digests are read from rows that pass the checks. -/
theorem policyAuditDigests_of_checked (epochRead : readKeyedFrom view keyring query = .ok epoch)
    (rowsRead : view (query + 1) = .ok tables)
    (checked : ∀ ev ∈ tables.auditLog.rows, isPolicyRow ev = true →
      checkRow sha256 (keyring.map AuditKeyring.snapshot) epoch ev = .ok () ∧
        newDigest ev.payload ≠ none) :
    policyAuditDigests sha256 view keyring query = .ok (recordedDigests tables.auditLog.rows) := by
  simp only [policyAuditDigests, epochRead, rowsRead]
  refine collectDigests_of_checked ?_
  intro ev member
  obtain ⟨row, policyRow⟩ := List.mem_filter.mp member
  exact checked ev row policyRow

/-- Unchanging tables with rows that pass the checks give their digests. -/
theorem policyAuditDigests_of_tables
    (checked : ∀ ev ∈ tables.auditLog.rows, isPolicyRow ev = true →
      checkRow sha256 (keyring.map AuditKeyring.snapshot) tables.keyedFromSeq ev = .ok () ∧
        newDigest ev.payload ≠ none) (query : Nat) :
    policyAuditDigests sha256 (fun _ => .ok tables) keyring query =
      .ok (recordedDigests tables.auditLog.rows) := by
  cases keyring with
  | none =>
    refine policyAuditDigests_of_checked rfl rfl ?_
    intro ev member policyRow
    exact ⟨rfl, (checked ev member policyRow).2⟩
  | some => exact policyAuditDigests_of_checked rfl rfl checked

end OmegaPlane.Policies
