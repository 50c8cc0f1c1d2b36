import OmegaPlane.Policies.Load
import OmegaPlane.Storage.Runs

/-!
# Runs of the policy API

The states a server reaches by policy requests and everything else it does to
the store.  In each of them the latest change the chain records for a policy
carries the digest of the stored text, and every recorded digest is that of a
text that was in place at some time.
-/

namespace OmegaPlane.Policies

open Audit Storage

/-! ## The digest a change records -/

/-- A draft for the row of a committed change. -/
def isPolicyDraft (draft : AuditDraft) : Bool :=
  (draft.kind = policyCreate ∨ draft.kind = policyUpdate ∨ draft.kind = policyDelete) ∧
    draft.decision = ascii "ok"

/-- Every change the function decides on is recorded with its id and the digest
of the text it leaves in place. -/
def Records (sha256 : Bytes → Bytes) (id : Bytes) (change : PolicyChange) : Prop :=
  ∀ cur next draft, change cur = .ok (next, draft) →
    isPolicyDraft draft = true ∧ draft.subject = id ∧
      draft.payload.bind newDigest = some (digestOf sha256 next)

variable {sha256 : Bytes → Bytes} {σ : Type}

theorem scrub_policyDigest (text : Bytes) :
    Utf8.scrub (policyDigest sha256 text) = policyDigest sha256 text := by
  apply Utf8.scrub_of_valid
  apply Utf8.validFrom_of_ascii
  intro byte member
  exact Hex.lt_of_mem (Hex.decodeString_encodeToString _) member

/-- The payload of a change names the digest it is meant to name. -/
theorem newDigest_policyEvent (request : Request) (kind id : Bytes) (cur : Option Policy)
    (text : Bytes) (version : Int) (cedarIDs : List Bytes) :
    (policyEvent sha256 request kind id cur text version cedarIDs).payload.bind newDigest =
      some (if kind = policyDelete then [] else policyDigest sha256 text) := by
  have noStrings : ∀ texts : List Bytes, Json.depthItems (texts.map .str) = 0 := by
    intro texts
    induction texts with
    | nil => rfl
    | cons text texts ih => simp [Json.depthItems, Json.depth, ih]
  -- no other name of the payload folds to the one that is read
  obtain ⟨cedarIDsName, idName, oldName, versionName, viaName⟩ :
      Json.foldName (Utf8.scrub (ascii "cedar_ids")) ≠ Json.foldName (ascii "new_digest") ∧
      Json.foldName (Utf8.scrub (ascii "id")) ≠ Json.foldName (ascii "new_digest") ∧
      Json.foldName (Utf8.scrub (ascii "old_digest")) ≠ Json.foldName (ascii "new_digest") ∧
      Json.foldName (Utf8.scrub (ascii "version")) ≠ Json.foldName (ascii "new_digest") ∧
      Json.foldName (Utf8.scrub (ascii "via")) ≠ Json.foldName (ascii "new_digest") := by
    decide
  have newName : Json.foldName (Utf8.scrub (ascii "new_digest")) =
      Json.foldName (ascii "new_digest") := by
    decide
  have scrubNil : Utf8.scrub [] = [] := rfl
  rw [policyEvent, Option.bind_some, newDigest, Json.unmarshalString_encode]
  · simp only [withVia, policyPayload]
    split <;> split <;>
      simp only [List.cons_append, List.nil_append, Json.toDocFields, Json.toDoc,
        Json.stringField, cedarIDsName, idName, newName, oldName, versionName, viaName, if_true,
        if_false, scrub_policyDigest, scrubNil]
  · simp only [withVia, policyPayload]
    split <;> split <;>
      simp [Json.depth, Json.depthFields, noStrings, Json.maxNestingDepth]

/-- Every change the function decides on leaves the text in place, none after a
delete. -/
def Leaves (text : Option Bytes) (change : PolicyChange) : Prop :=
  ∀ cur next draft, change cur = .ok (next, draft) → next.map Policy.text = text

theorem createChange_records (request : Request) (id text : Bytes) (cedarIDs : List Bytes) :
    Records sha256 id (createChange sha256 request id text cedarIDs) ∧
      Leaves (some text) (createChange sha256 request id text cedarIDs) := by
  constructor
  · intro cur next draft decided
    obtain ⟨-, left, rfl⟩ := createChange_eq_ok decided
    obtain ⟨policy, rfl, rfl⟩ := Option.map_eq_some_iff.mp left
    refine ⟨rfl, rfl, ?_⟩
    rw [newDigest_policyEvent]
    rfl
  · intro cur next draft decided
    exact (createChange_eq_ok decided).2.1

theorem updateChange_records (request : Request) (id text : Bytes) (cedarIDs : List Bytes) :
    Records sha256 id (updateChange sha256 request id text cedarIDs) ∧
      Leaves (some text) (updateChange sha256 request id text cedarIDs) := by
  constructor
  · intro cur next draft decided
    obtain ⟨old, -, -, left, rfl⟩ := updateChange_eq_ok decided
    obtain ⟨policy, rfl, rfl⟩ := Option.map_eq_some_iff.mp left
    refine ⟨rfl, rfl, ?_⟩
    rw [newDigest_policyEvent]
    rfl
  · intro cur next draft decided
    obtain ⟨old, -, -, left, -⟩ := updateChange_eq_ok decided
    exact left

theorem deleteChange_records (request : Request) (id : Bytes) :
    Records sha256 id (deleteChange sha256 request id) ∧
      Leaves none (deleteChange sha256 request id) := by
  constructor
  · intro cur next draft decided
    obtain ⟨old, -, -, rfl, rfl⟩ := deleteChange_eq_ok decided
    refine ⟨rfl, rfl, ?_⟩
    rw [newDigest_policyEvent]
    rfl
  · intro cur next draft decided
    obtain ⟨old, -, -, rfl, -⟩ := deleteChange_eq_ok decided
    rfl

/-! ## What a request does -/

variable {parseSources : List (Bytes × Bytes) → Except Bytes (List Bytes)} {s s' : Store σ}
  {call : Call} {id : Bytes} {text : Option Bytes} {change : PolicyChange} {draft : AuditDraft}
  {visited : List (Store σ)}

/-- All a request to leave a text in place under an id can do to the store. -/
inductive Submitted (sha256 : Bytes → Bytes) (id : Bytes) (text : Option Bytes) (s s' : Store σ) :
    Prop where
  | nothing (same : s' = s)
  | refused (call : Call) (draft : AuditDraft) (other : isPolicyDraft draft = false)
      (after : s' = (appendAudit sha256 s call draft).1)
  | changed (call : Call) (change : PolicyChange) (records : Records sha256 id change)
      (leaves : Leaves text change) (after : s' = (changePolicy sha256 s call id change).1)

theorem authorizePolicyWrite_submitted {config : Config} {request : Request} {kind name : Bytes}
    {authorized : Store σ × Answer} (submitted : Submitted sha256 name text s authorized.1) :
    Submitted sha256 name text s
      (authorizePolicyWrite sha256 config request s call kind id authorized).1 := by
  unfold authorizePolicyWrite
  split
  · rename_i reason _
    refine .refused call (refusalEvent request kind id reason) ?_ rfl
    have denied : ¬ascii "deny" = ascii "ok" := by decide
    simp [isPolicyDraft, refusalEvent, denied]
  · exact submitted

theorem commitChange_submitted {done : Option Policy → Answer}
    (changes : Records sha256 id change ∧ Leaves text change) :
    Submitted sha256 id text s (commitChange sha256 s call id change done).1 := by
  refine .changed call change changes.1 changes.2 ?_
  unfold commitChange
  split
  · rename_i result
    rw [result]
  · rename_i result
    rw [result]

theorem createPolicy_submitted (config : Config) (request : Request) (s : Store σ) (call : Call)
    (id text : Bytes) :
    Submitted sha256 id (some text) s
      (createPolicy parseSources sha256 config request s call id text).1 := by
  unfold createPolicy
  split
  · exact .nothing rfl
  split
  · exact .nothing rfl
  apply authorizePolicyWrite_submitted
  split
  · exact .nothing rfl
  · exact commitChange_submitted (createChange_records request id text _)

theorem updatePolicy_submitted (config : Config) (request : Request) (s : Store σ) (call : Call)
    (id bodyID text : Bytes) :
    Submitted sha256 id (some text) s
      (updatePolicy parseSources sha256 config request s call id bodyID text).1 := by
  unfold updatePolicy
  split
  · exact .nothing rfl
  split
  · exact .nothing rfl
  split
  · exact .nothing rfl
  apply authorizePolicyWrite_submitted
  split
  · exact .nothing rfl
  · split
    · exact .nothing rfl
    · exact commitChange_submitted (updateChange_records request id text _)

theorem deletePolicy_submitted (config : Config) (request : Request) (s : Store σ) (call : Call)
    (id : Bytes) :
    Submitted sha256 id none s (deletePolicy sha256 config request s call id).1 := by
  unfold deletePolicy
  split
  · exact .nothing rfl
  split
  · exact .nothing rfl
  apply authorizePolicyWrite_submitted
  split
  · exact .nothing rfl
  · exact commitChange_submitted (deleteChange_records request id)

/-- All a request can do to the store. -/
inductive Handled (sha256 : Bytes → Bytes) (s s' : Store σ) : Prop where
  | nothing (same : s' = s)
  | refused (call : Call) (draft : AuditDraft) (other : isPolicyDraft draft = false)
      (after : s' = (appendAudit sha256 s call draft).1)
  | changed (call : Call) (id : Bytes) (change : PolicyChange)
      (records : Records sha256 id change)
      (after : s' = (changePolicy sha256 s call id change).1)

theorem Submitted.handled (submitted : Submitted sha256 id text s s') : Handled sha256 s s' := by
  cases submitted with
  | nothing same => exact .nothing same
  | refused call draft other after => exact .refused call draft other after
  | changed call change records leaves after => exact .changed call id change records after

/-! ## Steps -/

/-- One step of a server: a policy request, any other write to the store, or a
change of its leadership, its keyring or its process.  Only policy requests
record policy changes. -/
inductive Step (sha256 : Bytes → Bytes)
    (parseSources : List (Bytes × Bytes) → Except Bytes (List Bytes)) :
    Store σ → Store σ → Prop where
  | create (s : Store σ) (config : Config) (request : Request) (call : Call)
      (id text : Bytes) :
      Step sha256 parseSources s (createPolicy parseSources sha256 config request s call id text).1
  | update (s : Store σ) (config : Config) (request : Request) (call : Call)
      (id bodyID text : Bytes) :
      Step sha256 parseSources s
        (updatePolicy parseSources sha256 config request s call id bodyID text).1
  | delete (s : Store σ) (config : Config) (request : Request) (call : Call) (id : Bytes) :
      Step sha256 parseSources s (deletePolicy sha256 config request s call id).1
  | append (s : Store σ) (call : Call) (draft : AuditDraft)
      (other : isPolicyDraft draft = false) :
      Step sha256 parseSources s (appendAudit sha256 s call draft).1
  | appendOnce (s : Store σ) (call : Call) (key : Bytes) (draft : AuditDraft)
      (other : isPolicyDraft draft = false) :
      Step sha256 parseSources s (appendAuditOnce sha256 s call key draft).1
  | scim (s : Store σ) (call : Call) (work : Provisioning σ)
      (other : ∀ before draft after, work before = .ok (draft, after) →
        isPolicyDraft draft = false) :
      Step sha256 parseSources s (scim sha256 s call work).1
  | elect (s : Store σ) (leader : Leadership) :
      Step sha256 parseSources s { s with leader := leader }
  | reload (s : Store σ) (keyring keyring' : AuditKeyring) (file : KeyringPath)
      (loaded : s.auditKeyring = some keyring) (accepted : keyring.reload file = .ok keyring')
      (secretsKept : Extends keyring.keys keyring'.keys) :
      Step sha256 parseSources s { s with auditKeyring := some keyring' }
  | restart (s : Store σ) (keyring : Option AuditKeyring) (leader : Leadership)
      (keeps : KeepsKeys s.auditKeyring keyring) :
      Step sha256 parseSources s ⟨s.db, leader, keyring, false, none⟩

/-- A run on a fresh database with the states it went through. -/
inductive Run (sha256 : Bytes → Bytes)
    (parseSources : List (Bytes × Bytes) → Except Bytes (List Bytes)) :
    List (Store σ) → Store σ → Prop where
  | start (driver : Driver) (provisioned : σ) (leader : Leadership)
      (keyring : Option AuditKeyring) :
      Run sha256 parseSources [.opened driver provisioned leader keyring]
        (.opened driver provisioned leader keyring)
  | step {visited : List (Store σ)} {s s' : Store σ} (run : Run sha256 parseSources visited s)
      (step : Step sha256 parseSources s s') : Run sha256 parseSources (visited ++ [s']) s'

/-- The text was in place under the id at some time of the run. -/
def Committed (visited : List (Store σ)) (id text : Bytes) : Prop :=
  ∃ s ∈ visited, ∃ policy, s.db.policies.lookup id = some policy ∧ policy.text = text

/-! ## What a step does -/

/-- All a step can do to the chain and the policies. -/
inductive Effect (sha256 : Bytes → Bytes) (s s' : Store σ) : Prop where
  | kept (rows : s'.db.auditLog.rows = s.db.auditLog.rows)
      (policies : s'.db.policies = s.db.policies)
  | other (ev : AuditEvent) (notPolicy : isPolicyRow ev = false)
      (rows : s'.db.auditLog.rows = s.db.auditLog.rows ++ [ev])
      (policies : s'.db.policies = s.db.policies)
  | changed (ev : AuditEvent) (policyRow : isPolicyRow ev = true)
      (rows : s'.db.auditLog.rows = s.db.auditLog.rows ++ [ev])
      (digest : newDigest ev.payload = some (digestOf sha256 (s'.db.policies.lookup ev.subject)))
      (table : ∀ name, ev.subject ≠ name → s'.db.policies.lookup name = s.db.policies.lookup name)

theorem Effect.rows_prefix (effect : Effect sha256 s s') :
    s.db.auditLog.rows <+: s'.db.auditLog.rows := by
  cases effect with
  | kept rows => rw [rows]
  | other ev notPolicy rows | changed ev policyRow rows =>
    rw [rows]
    exact List.prefix_append _ _

theorem isPolicyRow_of_writes {before after : Db σ} {ev : AuditEvent}
    (writes : WritesRow sha256 s call draft before ev after) :
    isPolicyRow ev = isPolicyDraft draft := by
  rw [writes.row]
  rfl

theorem policyEffect_of_appends (appends : Appends sha256 s call draft s')
    (other : isPolicyDraft draft = false) :
    Effect sha256 s s' := by
  obtain ⟨ev, writes⟩ := appends.writes
  exact .other ev ((isPolicyRow_of_writes writes).trans other) writes.rows appends.policies

theorem appendAudit_policyEffect (s : Store σ) (call : Call) (other : isPolicyDraft draft = false) :
    Effect sha256 s (appendAudit sha256 s call draft).1 := by
  rcases appendAudit_outcome s call draft with unchanged | appends
  · rw [unchanged]
    exact .kept rfl rfl
  · exact policyEffect_of_appends appends other

theorem changePolicy_policyEffect (s : Store σ) (call : Call) (records : Records sha256 id change) :
    Effect sha256 s (changePolicy sha256 s call id change).1 := by
  rcases changePolicy_outcome s call id change with unchanged | ⟨-, -, result, effect⟩
  · rw [unchanged]
    exact .kept rfl rfl
  obtain ⟨next, draft, decided, -, written, writes⟩ := effect.decided
  obtain ⟨policyDraft, subject, digest⟩ := records _ _ _ decided
  have subjectEq : result.2.subject = id := by
    rw [writes.row]
    exact subject
  have inPlace : digestOf sha256 next = digestOf sha256 result.1 := by
    rw [written]
    cases next with
    | none => rfl
    | some => cases s.db.policies.lookup id <;> rfl
  refine .changed result.2 ((isPolicyRow_of_writes writes).trans policyDraft) writes.rows ?_ ?_
  · rw [effect.table, if_pos subjectEq.symm, ← inPlace, ← digest, writes.row]
    cases payload : draft.payload with
    | none => simp [payload] at digest
    | some text =>
      change newDigest (draft.payload.getD _) = newDigest text
      rw [payload]
      rfl
  · intro name different
    rw [effect.table, if_neg (subjectEq ▸ different)]

theorem Handled.effect (handled : Handled sha256 s s') : Effect sha256 s s' := by
  cases handled with
  | nothing same =>
    rw [same]
    exact .kept rfl rfl
  | refused call draft other after =>
    rw [after]
    exact appendAudit_policyEffect s call other
  | changed call id change records after =>
    rw [after]
    exact changePolicy_policyEffect s call records

theorem Step.effect (step : Step sha256 parseSources s s') : Effect sha256 s s' := by
  cases step with
  | create config request call id text =>
    exact (createPolicy_submitted config request s call id text).handled.effect
  | update config request call id bodyID text =>
    exact (updatePolicy_submitted config request s call id bodyID text).handled.effect
  | delete config request call id =>
    exact (deletePolicy_submitted config request s call id).handled.effect
  | append call draft other => exact appendAudit_policyEffect s call other
  | appendOnce call key draft other =>
    rcases appendAuditOnce_outcome s call key draft with
      unchanged | ⟨written, rfl | ⟨seen, rfl⟩, appends⟩
    · rw [unchanged]
      exact .kept rfl rfl
    · exact policyEffect_of_appends appends other
    · -- a conflict row has the decision of an error
      refine policyEffect_of_appends appends ?_
      have error : ¬ascii "error" = ascii "ok" := by decide
      simp [isPolicyDraft, conflictDraft, error]
  | scim call work other =>
    rcases scim_outcome s call work with
      ⟨db, after, audit, policies⟩ | ⟨draft, ⟨_, named⟩, appends⟩
    · rw [after]
      exact .kept (by rw [audit.auditLog]) policies
    · exact policyEffect_of_appends appends (other _ _ _ named)
  | elect | reload | restart => exact .kept rfl rfl

/-- A step is made of steps of the writer. -/
theorem Step.writerSteps (step : Step sha256 parseSources s s') :
    Relation.ReflTransGen (Storage.Step sha256) s s' := by
  have ofHandled : Handled sha256 s s' → Relation.ReflTransGen (Storage.Step sha256) s s' := by
    intro handled
    cases handled with
    | nothing same => rw [same]
    | refused call draft other after =>
      rw [after]
      exact .single (.operate (.append s call draft))
    | changed call id change records after =>
      rw [after]
      exact .single (.operate (.change s call id change))
  cases step with
  | create config request call id text =>
    exact ofHandled (createPolicy_submitted config request s call id text).handled
  | update config request call id bodyID text =>
    exact ofHandled (updatePolicy_submitted config request s call id bodyID text).handled
  | delete config request call id =>
    exact ofHandled (deletePolicy_submitted config request s call id).handled
  | append call draft => exact .single (.operate (.append s call draft))
  | appendOnce call key draft => exact .single (.operate (.appendOnce s call key draft))
  | scim call work => exact .single (.operate (.scim s call work))
  | elect leader => exact .single (.operate (.elect s leader))
  | reload keyring keyring' file loaded accepted secretsKept =>
    exact .single (.reload s keyring keyring' file loaded accepted secretsKept)
  | restart keyring leader keeps => exact .single (.restart s keyring leader keeps)

theorem Run.reachable (run : Run sha256 parseSources visited s) : Reachable sha256 s := by
  induction run with
  | start driver provisioned leader keyring => exact ⟨driver, provisioned, leader, keyring, .refl⟩
  | step _ step ih =>
    obtain ⟨driver, provisioned, leader, keyring, steps⟩ := ih
    exact ⟨driver, provisioned, leader, keyring, steps.trans step.writerSteps⟩

/-! ## The chain records the policies -/

theorem latestChange_concat (id : Bytes) (rows : List AuditEvent) (ev : AuditEvent) :
    latestChange id (rows ++ [ev]) =
      if isPolicyRow ev = true ∧ ev.subject = id then some ev else latestChange id rows := by
  rw [latestChange, List.filter_append]
  split
  · rename_i recorded
    simp [recorded]
  · rename_i unrelated
    have dropped : [ev].filter (fun ev => isPolicyRow ev && ev.subject = id) = [] := by
      simpa [List.filter_cons] using unrelated
    rw [dropped, List.append_nil]
    rfl

/-- The chain against the policies: the latest change of a policy carries the
digest of what is stored, and every change that of a text once in place. -/
structure Recorded (sha256 : Bytes → Bytes) (visited : List (Store σ)) (s : Store σ) : Prop where
  untouched : ∀ id, latestChange id s.db.auditLog.rows = none → s.db.policies.lookup id = none
  latest : ∀ id ev, latestChange id s.db.auditLog.rows = some ev →
    newDigest ev.payload = some (digestOf sha256 (s.db.policies.lookup id))
  everyChange : ∀ ev ∈ s.db.auditLog.rows, isPolicyRow ev = true →
    newDigest ev.payload = some [] ∨ ∃ text, Committed visited ev.subject text ∧
      newDigest ev.payload = some (policyDigest sha256 text)

/-- What is stored has the digest of the latest change. -/
theorem Recorded.digest (recorded : Recorded sha256 visited s) (id : Bytes) :
    digestOf sha256 (s.db.policies.lookup id) =
      ((latestChange id s.db.auditLog.rows).bind fun ev => newDigest ev.payload).getD [] := by
  cases latest : latestChange id s.db.auditLog.rows with
  | none =>
    rw [recorded.untouched id latest]
    rfl
  | some ev =>
    rw [Option.bind_some, recorded.latest id ev latest]
    rfl

theorem Committed.mono {text : Bytes} (s : Store σ) (committed : Committed visited id text) :
    Committed (visited ++ [s]) id text := by
  obtain ⟨earlier, member, found⟩ := committed
  exact ⟨earlier, List.mem_append_left _ member, found⟩

theorem Recorded.step (recorded : Recorded sha256 visited s) (effect : Effect sha256 s s') :
    Recorded sha256 (visited ++ [s']) s' := by
  have earlier : ∀ ev ∈ s.db.auditLog.rows, isPolicyRow ev = true →
      newDigest ev.payload = some [] ∨ ∃ text, Committed (visited ++ [s']) ev.subject text ∧
        newDigest ev.payload = some (policyDigest sha256 text) := by
    intro ev member policyRow
    rcases recorded.everyChange ev member policyRow with deleted | ⟨text, committed, digest⟩
    · exact .inl deleted
    · exact .inr ⟨text, committed.mono s', digest⟩
  cases effect with
  | kept rows policies =>
    refine ⟨?_, ?_, ?_⟩
    · rw [rows, policies]
      exact recorded.untouched
    · rw [rows, policies]
      exact recorded.latest
    · rw [rows]
      exact earlier
  | other ev notPolicy rows policies =>
    have sameLatest : ∀ id, latestChange id s'.db.auditLog.rows =
        latestChange id s.db.auditLog.rows := by
      intro id
      rw [rows, latestChange_concat, if_neg (by simp [notPolicy])]
    refine ⟨?_, ?_, ?_⟩
    · intro id
      rw [sameLatest, policies]
      exact recorded.untouched id
    · intro id
      rw [sameLatest, policies]
      exact recorded.latest id
    · intro row member policyRow
      rw [rows] at member
      rcases List.mem_append.mp member with old | new
      · exact earlier row old policyRow
      · rw [List.mem_singleton.mp new, notPolicy] at policyRow
        contradiction
  | changed ev policyRow rows digest table =>
    refine ⟨?_, ?_, ?_⟩
    · intro id
      rw [rows, latestChange_concat]
      split
      · simp
      · rename_i unrelated
        rw [table id fun same => unrelated ⟨policyRow, same⟩]
        exact recorded.untouched id
    · intro id latest
      rw [rows, latestChange_concat]
      split
      · rename_i own
        intro same
        obtain rfl := Option.some.inj same
        rw [← own.2]
        exact digest
      · rename_i unrelated
        rw [table id fun same => unrelated ⟨policyRow, same⟩]
        exact recorded.latest id latest
    · intro row member rowPolicy
      rw [rows] at member
      rcases List.mem_append.mp member with old | new
      · exact earlier row old rowPolicy
      rw [List.mem_singleton.mp new]
      cases stored : s'.db.policies.lookup ev.subject with
      | none =>
        rw [stored] at digest
        exact .inl digest
      | some policy =>
        rw [stored] at digest
        exact .inr ⟨policy.text, ⟨s', by simp, policy, stored, rfl⟩, digest⟩

/-- In every state of a run the chain records the policies. -/
theorem Run.recorded (run : Run sha256 parseSources visited s) : Recorded sha256 visited s := by
  induction run with
  | start =>
    refine ⟨fun _ _ => rfl, ?_, ?_⟩
    · intro id ev latest
      simp [latestChange, Store.opened, Db.empty, AuditTable.empty] at latest
    · simp [Store.opened, Db.empty, AuditTable.empty]
  | step _ step ih => exact ih.step step.effect

/-- The rows of a run pass the check of a load, if the epoch it read is not
before an unkeyed row. -/
theorem Run.checked (run : Run sha256 parseSources visited s) {epoch : Option Int}
    (early : ∀ ev ∈ s.db.auditLog.rows, ev.isUnkeyed = true → pastEpoch epoch ev = false) :
    ∀ ev ∈ s.db.auditLog.rows, isPolicyRow ev = true →
      checkRow sha256 (s.auditKeyring.map AuditKeyring.snapshot) epoch ev = .ok () ∧
        newDigest ev.payload ≠ none := by
  intro ev member policyRow
  constructor
  · cases keyringEq : s.auditKeyring with
    | none => rfl
    | some loaded =>
      obtain ⟨key, resolved, code⟩ := run.reachable.chainInvariant.rows.authentic ev member
      change checkAuditRowMAC sha256 loaded.snapshot epoch ev = .ok ()
      by_cases unkeyed : ev.isUnkeyed = true
      · simp [checkAuditRowMAC, unkeyed, early ev member unkeyed]
      · have found : loaded.snapshot.lookup ev.keyID = some key := by
          simpa [rowKey, unkeyed, Store.keySnap, keyringEq] using resolved
        simp [checkAuditRowMAC, unkeyed, found, code]
  · rcases run.recorded.everyChange ev member policyRow with deleted | ⟨text, -, digest⟩
    · simp [deleted]
    · simp [digest]

/-- The tables of a run are read at the first attempt. -/
theorem Run.policySet (run : Run sha256 parseSources visited s) :
    Policies.policySet sha256 (fun _ => .ok (tablesOf s.db)) s.auditKeyring =
      .ok (s.db.policies.rows.insertionSort fun first second => first.id ≤ second.id,
        recordedDigests s.db.auditLog.rows) := by
  have digests := @policyAuditDigests_of_tables sha256 s.auditKeyring (tablesOf s.db)
    (run.checked run.reachable.chainInvariant.rows.beforeEpoch)
  have same := Table.same_of_lookup_eq fun name =>
    Eq.refl ((recordedDigests (tablesOf s.db).auditLog.rows).lookup name)
  simp only [Policies.policySet, digests, policySetFrom, listPolicies, same, if_true]
  rfl

end OmegaPlane.Policies
