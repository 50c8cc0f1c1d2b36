import OmegaPlane.Policies.Runs

/-!
# The stored policies and the replayed changes

The changes a history of requests committed, replayed in order, give the texts
the policies table holds.  The comparison with the audit chain passes exactly
for the tables whose digests are those of the replay, so it passes for the table
the requests left and refuses every edit of it that changes a digest.
-/

namespace OmegaPlane.Policies

open Audit Storage Crypto

variable {σ : Type} {sha256 : Bytes → Bytes}
  {parseSources : List (Bytes × Bytes) → Except Bytes (List Bytes)} {s : Store σ}

/-! ## Histories -/

/-- A request to write a policy, with what its path and body name. -/
inductive Submission where
  | create (id text : Bytes)
  | update (id bodyID text : Bytes)
  | delete (id : Bytes)

/-- What a committed request leaves in place under an id. -/
structure Change where
  id : Bytes
  text : Option Bytes
  deriving DecidableEq

def Submission.change : Submission → Change
  | .create id text => ⟨id, some text⟩
  | .update id _ text => ⟨id, some text⟩
  | .delete id => ⟨id, none⟩

/-- Handle a request. -/
def submit (parseSources : List (Bytes × Bytes) → Except Bytes (List Bytes))
    (sha256 : Bytes → Bytes) (config : Config) (request : Request) (s : Store σ) (call : Call) :
    Submission → Store σ × Answer
  | .create id text => createPolicy parseSources sha256 config request s call id text
  | .update id bodyID text =>
    updatePolicy parseSources sha256 config request s call id bodyID text
  | .delete id => deletePolicy sha256 config request s call id

/-- The rows of committed changes. -/
def changeRows (s : Store σ) : List AuditEvent :=
  s.db.auditLog.rows.filter isPolicyRow

/-- The change, if its transaction committed: then the chain has gained a row. -/
def committedChange (before after : Store σ) (change : Change) : List Change :=
  if (changeRows after).length = (changeRows before).length then [] else [change]

/-- A history of a server on a fresh database, with the changes its requests
committed.  All else the server does commits no change. -/
inductive History (sha256 : Bytes → Bytes)
    (parseSources : List (Bytes × Bytes) → Except Bytes (List Bytes)) :
    List Change → Store σ → Prop where
  | start (driver : Driver) (provisioned : σ) (leader : Leadership)
      (keyring : Option AuditKeyring) :
      History sha256 parseSources [] (.opened driver provisioned leader keyring)
  | request {changes : List Change} {s : Store σ} (history : History sha256 parseSources changes s)
      (config : Config) (request : Request) (call : Call) (submission : Submission) :
      History sha256 parseSources
        (changes ++ committedChange s
          (submit parseSources sha256 config request s call submission).1 submission.change)
        (submit parseSources sha256 config request s call submission).1
  | other {changes : List Change} {s s' : Store σ} (history : History sha256 parseSources changes s)
      (step : Step sha256 parseSources s s')
      (quiet : (changeRows s').length = (changeRows s).length) :
      History sha256 parseSources changes s'

/-- The texts in place after the changes. -/
def replay (changes : List Change) : Bytes → Option Bytes :=
  changes.foldl (fun texts change => Function.update texts change.id change.text) fun _ => none

theorem replay_concat (changes : List Change) (change : Change) :
    replay (changes ++ [change]) = Function.update (replay changes) change.id change.text := by
  simp [replay]

/-! ## The table is the replay -/

theorem submit_submitted (config : Config) (request : Request) (s : Store σ) (call : Call)
    (submission : Submission) :
    Submitted sha256 submission.change.id submission.change.text s
      (submit parseSources sha256 config request s call submission).1 := by
  cases submission with
  | create id text => exact createPolicy_submitted config request s call id text
  | update id bodyID text => exact updatePolicy_submitted config request s call id bodyID text
  | delete id => exact deletePolicy_submitted config request s call id

theorem submit_step (config : Config) (request : Request) (s : Store σ) (call : Call)
    (submission : Submission) :
    Step sha256 parseSources s (submit parseSources sha256 config request s call submission).1 := by
  cases submission with
  | create id text => exact .create s config request call id text
  | update id bodyID text => exact .update s config request call id bodyID text
  | delete id => exact .delete s config request call id

variable {changes : List Change} {s' : Store σ}

theorem History.run (history : History sha256 parseSources changes s) :
    ∃ visited, Run sha256 parseSources visited s := by
  induction history with
  | start driver provisioned leader keyring => exact ⟨_, .start driver provisioned leader keyring⟩
  | request _ config request call submission ih =>
    obtain ⟨visited, run⟩ := ih
    exact ⟨_, run.step (submit_step config request _ call submission)⟩
  | other _ step _ ih =>
    obtain ⟨visited, run⟩ := ih
    exact ⟨_, run.step step⟩

/-- A step that committed no change leaves the policies. -/
theorem Effect.policies_of_quiet (effect : Effect sha256 s s')
    (quiet : (changeRows s').length = (changeRows s).length) :
    s'.db.policies = s.db.policies := by
  cases effect with
  | kept rows policies | other ev notPolicy rows policies => exact policies
  | changed ev policyRow rows =>
    rw [changeRows, changeRows, rows] at quiet
    simp [policyRow] at quiet

/-- A request leaves its text under its id and nothing else, if it commits. -/
theorem Submitted.texts {id : Bytes} {text : Option Bytes}
    (submitted : Submitted sha256 id text s s')
    (committed : (changeRows s').length ≠ (changeRows s).length) (name : Bytes) :
    (s'.db.policies.lookup name).map Policy.text =
      if name = id then text else (s.db.policies.lookup name).map Policy.text := by
  cases submitted with
  | nothing same => exact absurd (by rw [same]) committed
  | refused call draft other after =>
    refine absurd ?_ committed
    rw [after]
    rcases appendAudit_outcome s call draft with unchanged | appends
    · rw [unchanged]
    obtain ⟨ev, writes⟩ := appends.writes
    have notPolicy := (isPolicyRow_of_writes writes).trans other
    rw [changeRows, changeRows, writes.rows]
    simp [notPolicy]
  | changed call change records leaves after =>
    rw [after] at committed ⊢
    rcases changePolicy_outcome s call id change with unchanged | ⟨-, -, result, effect⟩
    · exact absurd (by rw [unchanged]) committed
    obtain ⟨next, draft, decided, -, written, -⟩ := effect.decided
    rw [effect.table]
    by_cases own : name = id
    · rw [if_pos own.symm, if_pos own, ← leaves _ _ _ decided, written]
      cases next with
      | none => rfl
      | some => cases s.db.policies.lookup id <;> rfl
    · rw [if_neg (Ne.symm own), if_neg own]

/-- The table holds the texts of the replayed changes. -/
theorem History.texts (history : History sha256 parseSources changes s) (id : Bytes) :
    (s.db.policies.lookup id).map Policy.text = replay changes id := by
  induction history with
  | start => rfl
  | @request changes s _ config request call submission ih =>
    have submitted := @submit_submitted σ sha256 parseSources config request s call submission
    rw [committedChange]
    split
    · rename_i quiet
      rw [submitted.handled.effect.policies_of_quiet quiet, List.append_nil]
      exact ih
    · rename_i committed
      rw [submitted.texts committed, replay_concat, Function.update_apply, ih]
  | other _ step quiet ih =>
    rw [step.effect.policies_of_quiet quiet]
    exact ih

/-! ## The comparison -/

/-- The texts of the table have the digests of the replayed ones. -/
def MatchesReplay (sha256 : Bytes → Bytes) (changes : List Change) (policies : Table Policy.id) :
    Prop :=
  ∀ id, ((policies.lookup id).map fun policy => sha256 policy.text) = (replay changes id).map sha256

/-- Digests agree where texts have the same SHA-256 or are both absent. -/
theorem digestOf_eq_iff (sized : ∀ text, (sha256 text).length = 32) (first second : Option Policy) :
    digestOf sha256 first = digestOf sha256 second ↔
      (first.map fun policy => sha256 policy.text) =
        second.map fun policy => sha256 policy.text := by
  cases first with
  | none =>
    cases second with
    | none => simp
    | some policy => simpa [digestOf] using Ne.symm (policyDigest_ne_nil sized policy.text)
  | some policy =>
    cases second with
    | none => simpa [digestOf] using policyDigest_ne_nil sized policy.text
    | some =>
    simp only [digestOf, Option.map_some, Option.some.injEq]
    constructor
    · exact policyDigest_injective
    · intro sums
      rw [policyDigest, policyDigest, sums]

/-- The tables of a database with the policies replaced. -/
def editedTables (s : Store σ) (policies : Table Policy.id) : Tables :=
  ⟨s.db.auditLog.toAuditLog, s.db.keyedFromSeq, policies⟩

/-- After every history, whatever the policies table is changed to, the digests
can be read from the chain and the comparison passes exactly when the digests
of the table are those of the replayed changes.  The table the history left
passes. -/
theorem matchAuditChain_iff_replay {changes : List Change} {s : Store σ}
    (history : History Sha256.sum parseSources changes s) :
    (∀ policies query, ∃ items recorded,
      listPolicies (fun _ => .ok (editedTables s policies)) query = .ok items ∧
      policyAuditDigests Sha256.sum (fun _ => .ok (editedTables s policies)) s.auditKeyring query =
        .ok recorded ∧
      (matchAuditChain Sha256.sum items recorded = .ok () ↔
        MatchesReplay Sha256.sum changes policies)) ∧
    MatchesReplay Sha256.sum changes s.db.policies := by
  obtain ⟨visited, run⟩ := history.run
  have replayed : ∀ id, (replay changes id).map Sha256.sum =
      (s.db.policies.lookup id).map fun policy => Sha256.sum policy.text := by
    intro id
    rw [← history.texts id, Option.map_map]
    rfl
  refine ⟨?_, fun id => (replayed id).symm⟩
  intro policies query
  refine ⟨_, recordedDigests s.db.auditLog.rows, rfl, ?_, ?_⟩
  · exact @policyAuditDigests_of_tables Sha256.sum s.auditKeyring (editedTables s policies)
      (run.checked run.reachable.chainInvariant.rows.beforeEpoch) query
  rw [matchAuditChain_iff (List.perm_insertionSort _ _)]
  have recorded : ∀ id, recordedDigest (recordedDigests s.db.auditLog.rows) id =
      digestOf Sha256.sum (s.db.policies.lookup id) := by
    intro id
    rw [recordedDigest_recordedDigests, run.recorded.digest]
  constructor
  · intro matched id
    rw [replayed]
    exact (digestOf_eq_iff Sha256.length_sum _ _).mp ((matched id).trans (recorded id))
  · intro matched id
    rw [recorded]
    exact (digestOf_eq_iff Sha256.length_sum _ _).mpr ((matched id).trans (replayed id))

/-! ## A sample history -/

def permitAll : Bytes := ascii "permit(principal, action, resource);"

def forbidAll : Bytes := ascii "forbid(principal, action, resource);"

def rootAdmin : Bytes := ascii "spiffe://omega.local/admin"

def adminRequest : Request := ⟨rootAdmin, [], ascii "*"⟩

/-- Each source defines one policy, named by its key. -/
def oneEach (sources : List (Bytes × Bytes)) : Except Bytes (List Bytes) :=
  .ok (sources.map Prod.fst)

def emptyEngine : Engine := ⟨.empty, [], none⟩

def adminConfig : Config := ⟨true, [rootAdmin], emptyEngine⟩

def freshStore : Store Unit :=
  .opened .sqlite () ⟨false, false⟩ (some sampleKeyring)

/-- The policy `a` permits everything. -/
def permittingStore : Store Unit :=
  (createPolicy oneEach Sha256.sum adminConfig adminRequest freshStore (.clean 1) (ascii "a")
    permitAll).1

/-- The created policy is the replay of one change. -/
theorem matchAuditChain_iff_replay_permittingStore :
    History Sha256.sum oneEach [⟨ascii "a", some permitAll⟩] permittingStore ∧
      MatchesReplay Sha256.sum [⟨ascii "a", some permitAll⟩] permittingStore.db.policies := by
  have committed : committedChange freshStore permittingStore ⟨ascii "a", some permitAll⟩ =
      [⟨ascii "a", some permitAll⟩] := by
    decide
  have history : History Sha256.sum oneEach [⟨ascii "a", some permitAll⟩] permittingStore := by
    rw [← committed]
    exact .request (.start .sqlite () ⟨false, false⟩ (some sampleKeyring)) adminConfig
      adminRequest (.clean 1) (.create (ascii "a") permitAll)
  exact ⟨history, (matchAuditChain_iff_replay history).2⟩

end OmegaPlane.Policies
