import OmegaPlane.Leader.Cluster
import OmegaPlane.Storage.Runs

/-!
# The chain under leader election

The leader flag is read before the transaction starts and follows the lock only
at the next ping, so nothing ties an append to the session that owns the lock.
In runs where it is tied, every append starts while its replica's session owns
the lock and that session keeps it until the append has ended, the committed
rows form one chain that verifies.  Without that, two replicas fork the chain.
-/

namespace OmegaPlane.Leader

open Audit Chain Crypto Storage

variable {ι : Type} {sha256 : Bytes → Bytes} {r : Replica} {tx : Append} {c c' : Cluster ι} {i : ι}
  {action : Action ι} {keyring : Option AuditKeyring} {table : AuditTable} {row : AuditEvent}
  {epoch : Option Int}

/-! ## Runs -/

/-- The action keeps appends under the lock: an append passes its leader check
only while its replica's session owns the lock, and that session does not lose
the lock while an append of the replica is under way. -/
def Covered (c : Cluster ι) : Action ι → Prop
  | .check i _ => c.lock = some i
  | .unlock i freed => freed = true → c.lock = some i → (c.replica i).Idle
  | .sessionDies i => (c.replica i).Idle
  | _ => True

/-- A step of the cluster. -/
def Steps [DecidableEq ι] (sha256 : Bytes → Bytes) (c c' : Cluster ι) : Prop :=
  ∃ action, step sha256 c action = some c'

/-- A step that keeps appends under the lock. -/
def CoveredSteps [DecidableEq ι] (sha256 : Bytes → Bytes) (c c' : Cluster ι) : Prop :=
  ∃ action, Covered c action ∧ step sha256 c action = some c'

/-! ## The invariant -/

/-- The key id and key of new rows. -/
abbrev signing (keyring : Option AuditKeyring) : Bytes × Bytes :=
  (Store.opened .postgres () ⟨true, false⟩ keyring).signingKey

/-- A row that can be appended to the committed ones. -/
structure Ready (keyring : Option AuditKeyring) (table : AuditTable) (row : AuditEvent) : Prop where
  link : row.prevHash = tip AuditEvent.hash genesisHash table.rows
  drawn : 0 < row.seq ∧ row.seq < table.nextSeq
  past : ∀ ev ∈ table.rows, ev.seq < row.seq
  keyID : row.keyID = (signing keyring).1

/-- The row carries its own code. -/
def Sealed (sha256 : Bytes → Bytes) (keyring : Option AuditKeyring) (row : AuditEvent) : Prop :=
  Hex.decodeString row.hash = some (macAuditEvent sha256 row (signing keyring).2)

/-- What a transaction has read and written still fits the committed rows. -/
def Fits (sha256 : Bytes → Bytes) (keyring : Option AuditKeyring) (table : AuditTable) :
    Progress → Prop
  | .begun => True
  | .read _ prev => prev = tip AuditEvent.hash genesisHash table.rows
  | .inserted row => Ready keyring table row
  | .hashed row => Ready keyring table row ∧ Sealed sha256 keyring row
  | .recorded row epoch => Ready keyring table row ∧ Sealed sha256 keyring row ∧
      (epoch = none ∨ epoch = some row.seq)

/-- The committed rows are accepted by a walk with the keyring. -/
def Verifies (sha256 : Bytes → Bytes) (keyring : Option AuditKeyring) (table : AuditTable)
    (epoch : Option Int) : Prop :=
  Accepts sha256 (keyring.map AuditKeyring.snapshot) (if keyring.isSome then epoch else none)
    genesisHash false table.rows

/-- What covered steps preserve: appends under way belong to the owner of the
lock, what they hold fits the committed rows, and these verify. -/
structure Invariant (sha256 : Bytes → Bytes) (c : Cluster ι) : Prop where
  owned : ∀ i, ¬(c.replica i).Idle → c.lock = some i
  fits : ∀ i tx, (c.replica i).tx = some tx → Fits sha256 c.auditKeyring c.auditLog tx.progress
  verifies : Verifies sha256 c.auditKeyring c.auditLog c.keyedFromSeq

theorem not_idle_of_tx (busy : r.tx = some tx) : ¬r.Idle := by
  rintro ⟨-, none⟩
  rw [busy] at none
  contradiction

/-- Only the owner of the lock has an append under way. -/
theorem Invariant.idle_of_ne (invariant : Invariant sha256 c) {j : ι} (busy : ¬(c.replica i).Idle)
    (other : j ≠ i) : (c.replica j).Idle := by
  by_contra otherBusy
  have owners := (invariant.owned j otherBusy).symm.trans (invariant.owned i busy)
  exact other (Option.some.inj owners)

variable [DecidableEq ι]

/-! ## Steps of the election -/

/-- Nothing but the lock and the election goroutines has moved. -/
structure KeepsAppends (c c' : Cluster ι) : Prop where
  auditLog : c'.auditLog = c.auditLog
  keyedFromSeq : c'.keyedFromSeq = c.keyedFromSeq
  auditKeyring : c'.auditKeyring = c.auditKeyring
  waiting : ∀ j, (c'.replica j).waiting = (c.replica j).waiting
  tx : ∀ j, (c'.replica j).tx = (c.replica j).tx

theorem keepsAppends_set {lock : Option ι} (waiting : r.waiting = (c.replica i).waiting)
    (tx : r.tx = (c.replica i).tx) :
    KeepsAppends c { c.set i r with lock := lock } := by
  constructor
  · rfl
  · rfl
  · rfl
  · intro j
    by_cases same : j = i
    · subst same
      simpa using waiting
    · simp [same]
  · intro j
    by_cases same : j = i
    · subst same
      simpa using tx
    · simp [same]

/-- Steps of the election leave the appends alone, and covered ones take the
lock from no replica with an append under way. -/
theorem electionStep_spec (covered : Covered c action) (stepped : electionStep c action = some c') :
    KeepsAppends c c' ∧ ∀ j, ¬(c.replica j).Idle → c.lock = some j → c'.lock = some j := by
  cases action with
  | acquire =>
    obtain ⟨⟨-, free⟩, ⟨⟩⟩ := Option.ite_none_right_eq_some.mp stepped
    refine ⟨keepsAppends_set rfl rfl, ?_⟩
    intro j _ owner
    rcases free with none | mine
    · rw [owner] at none
      contradiction
    · exact mine.symm.trans owner
  | grantLost =>
    obtain ⟨⟨-, free⟩, ⟨⟩⟩ := Option.ite_none_right_eq_some.mp stepped
    refine ⟨⟨rfl, rfl, rfl, fun _ => rfl, fun _ => rfl⟩, ?_⟩
    intro j _ owner
    rw [owner] at free
    contradiction
  | announce | pingFailed | stepDown =>
    obtain ⟨-, ⟨⟩⟩ := Option.ite_none_right_eq_some.mp stepped
    exact ⟨keepsAppends_set rfl rfl, fun _ _ owner => owner⟩
  | unlock i freed =>
    obtain ⟨-, ⟨⟩⟩ := Option.ite_none_right_eq_some.mp stepped
    refine ⟨keepsAppends_set rfl rfl, ?_⟩
    intro j busy owner
    by_cases frees : freed = true ∧ c.lock = some i
    · -- the replica that unlocks is idle, so it is not the busy one
      obtain rfl : i = j := Option.some.inj (frees.2.symm.trans owner)
      exact absurd (covered frees.1 frees.2) busy
    · simpa [frees] using owner
  | sessionDies i =>
    obtain ⟨mine, ⟨⟩⟩ := Option.ite_none_right_eq_some.mp stepped
    refine ⟨⟨rfl, rfl, rfl, fun _ => rfl, fun _ => rfl⟩, ?_⟩
    intro j busy owner
    obtain rfl : i = j := Option.some.inj (mine.symm.trans owner)
    exact absurd covered busy
  | _ => simp [electionStep] at stepped

theorem Invariant.election (invariant : Invariant sha256 c) (covered : Covered c action)
    (stepped : electionStep c action = some c') : Invariant sha256 c' := by
  obtain ⟨keeps, locks⟩ := electionStep_spec covered stepped
  constructor
  · intro i busy
    have wasBusy : ¬(c.replica i).Idle := by
      rwa [Replica.Idle, keeps.waiting, keeps.tx] at busy
    exact locks i wasBusy (invariant.owned i wasBusy)
  · intro i tx held
    rw [keeps.tx] at held
    rw [keeps.auditKeyring, keeps.auditLog]
    exact invariant.fits i tx held
  · rw [keeps.auditKeyring, keeps.auditLog, keeps.keyedFromSeq]
    exact invariant.verifies

/-! ## Steps of an append -/

/-- A replica whose session owns the lock moves an append on; the committed rows
stay. -/
theorem Invariant.set {epochWriter : Option ι} (invariant : Invariant sha256 c)
    (owner : ¬r.Idle → c.lock = some i)
    (fits : ∀ tx, r.tx = some tx → Fits sha256 c.auditKeyring c.auditLog tx.progress) :
    Invariant sha256 { c.set i r with epochWriter := epochWriter } := by
  constructor
  · intro j busy
    by_cases same : j = i
    · subst same
      exact owner (by simpa using busy)
    · exact invariant.owned j (by simpa [same] using busy)
  · intro j tx held
    by_cases same : j = i
    · subst same
      exact fits tx (by simpa using held)
    · exact invariant.fits j tx (by simpa [same] using held)
  · exact invariant.verifies

/-- Drawing a number leaves the rows and keeps numbers fresh. -/
theorem Fits.draw {progress : Progress} (fits : Fits sha256 keyring table progress) :
    Fits sha256 keyring (AuditTable.draw table).2 progress := by
  have ready : ∀ row, Ready keyring table row → Ready keyring (AuditTable.draw table).2 row := by
    intro row was
    refine ⟨was.link, ⟨was.drawn.1, ?_⟩, was.past, was.keyID⟩
    exact was.drawn.2.trans (Int.lt_succ table.nextSeq)
  cases progress with
  | begun => exact trivial
  | read => exact fits
  | inserted row => exact ready row fits
  | hashed row | recorded row => exact ⟨ready row fits.1, fits.2⟩

omit [DecidableEq ι] in
theorem Invariant.draw (invariant : Invariant sha256 c) :
    Invariant sha256 { c with auditLog := (AuditTable.draw c.auditLog).2 } where
  owned := invariant.owned
  fits i tx held := (invariant.fits i tx held).draw
  verifies := invariant.verifies

/-- A row inserted under the number just drawn is ready. -/
theorem ready_row {prev : Bytes} (draft : AuditDraft) (stamp : Int)
    (fits : prev = tip AuditEvent.hash genesisHash table.rows) :
    Ready keyring (AuditTable.draw table).2
      (draft.row stamp (signing keyring).1 prev (AuditTable.draw table).1) := by
  constructor
  · exact fits
  · exact ⟨table.started, Int.lt_succ table.nextSeq⟩
  · exact fun ev member => (table.assigned ev member).2
  · rfl

/-- A sealed row with the link, the key id and a number past the others extends
the chain. -/
theorem Verifies.put {keyedFromSeq : Option Int}
    (verifies : Verifies sha256 keyring table keyedFromSeq) (ready : Ready keyring table row)
    (isSealed : Sealed sha256 keyring row) (epochs : epoch = none ∨ epoch = some row.seq) :
    Verifies sha256 keyring (AuditTable.put table row) (keyedFromSeq.or epoch) := by
  obtain ⟨resolved, kind⟩ :=
    rowKey_signingKey (Store.opened .postgres () ⟨true, false⟩ keyring) ready.keyID
  rw [Verifies, AuditTable.rows_put ready.drawn ready.past]
  apply Accepts.concat verifies
  · exact fun ev member => (table.assigned ev member).1.ne'
  · exact ready.drawn.1.ne'
  · exact ready.link
  · exact ⟨_, resolved, isSealed⟩
  · intro loaded
    rw [kind]
    cases keyring with
    | none => contradiction
    | some => rfl
  · -- a new epoch is the number of this row, past all others
    intro ev member notPast
    cases keyring with
    | none => exact notPast
    | some =>
    cases keyedFromSeq with
    | some => exact notPast
    | none =>
      rcases epochs with rfl | rfl
      · rfl
      · exact decide_eq_false (not_le.mpr (ready.past ev member))

/-- A transaction that fits the committed rows commits. -/
theorem Invariant.commit (invariant : Invariant sha256 c) (held : (c.replica i).tx = some tx)
    (ready : Ready c.auditKeyring c.auditLog row) (isSealed : Sealed sha256 c.auditKeyring row)
    (epochs : epoch = none ∨ epoch = some row.seq) :
    Invariant sha256 (c.commit i row epoch) := by
  have busy := not_idle_of_tx held
  -- nobody else has an append under way, so no transaction sees the rows change
  have othersIdle : ∀ j, j ≠ i → ((c.commit i row epoch).replica j).Idle := by
    intro j other
    simpa [Cluster.commit, Cluster.finish, other] using invariant.idle_of_ne busy other
  have ended : ((c.commit i row epoch).replica i).tx = none := by
    simp [Cluster.commit, Cluster.finish]
  constructor
  · intro j stillBusy
    by_cases same : j = i
    · subst same
      exact invariant.owned j busy
    · exact absurd (othersIdle j same) stillBusy
  · intro j tx' held'
    by_cases same : j = i
    · subst same
      rw [ended] at held'
      contradiction
    · rw [(othersIdle j same).2] at held'
      contradiction
  · exact invariant.verifies.put ready isSealed epochs

/-- A statement of a transaction keeps the invariant. -/
theorem Invariant.statement (invariant : Invariant sha256 c) (held : (c.replica i).tx = some tx)
    (stepped : statement sha256 c i tx action = some c') : Invariant sha256 c' := by
  have owner := invariant.owned i (not_idle_of_tx held)
  have fits := invariant.fits i tx held
  have moves : ∀ (progress : Progress) (epochWriter : Option ι),
      Fits sha256 c.auditKeyring c.auditLog progress →
      Invariant sha256 { c.progress i tx progress with epochWriter := epochWriter } := by
    intro progress epochWriter moved
    apply invariant.set (fun _ => owner)
    rintro _ ⟨⟩
    exact moved
  cases action with
  | lastAuditHash =>
    obtain ⟨-, ⟨⟩⟩ := Option.ite_none_right_eq_some.mp stepped
    exact moves _ c.epochWriter rfl
  | insert =>
    cases progress : tx.progress with
    | read stamp =>
      simp only [Leader.statement, progress] at stepped
      obtain ⟨-, ⟨⟩⟩ := Option.ite_none_right_eq_some.mp stepped
      rw [progress] at fits
      apply invariant.draw.set (fun _ => owner)
      rintro _ ⟨⟩
      exact ready_row tx.draft stamp fits
    | _ => simp [Leader.statement, progress] at stepped
  | updateHash =>
    cases progress : tx.progress with
    | inserted row =>
      simp only [Leader.statement, progress, Option.some.injEq] at stepped
      subst stepped
      rw [progress] at fits
      apply moves _ c.epochWriter
      exact ⟨⟨fits.link, fits.drawn, fits.past, fits.keyID⟩, decodeString_sealRow_hash sha256 row _⟩
    | _ => simp [Leader.statement, progress] at stepped
  | recordEpoch =>
    cases progress : tx.progress with
    | hashed =>
      simp only [Leader.statement, progress] at stepped
      obtain ⟨-, recorded⟩ := Option.ite_none_right_eq_some.mp stepped
      rw [progress] at fits
      split at recorded
      · cases recorded
        exact moves _ c.epochWriter ⟨fits.1, fits.2, .inl rfl⟩
      · cases recorded
        exact moves _ (some i) ⟨fits.1, fits.2, .inr rfl⟩
    | _ => simp [Leader.statement, progress] at stepped
  | commit =>
    cases progress : tx.progress with
    | hashed =>
      simp only [Leader.statement, progress] at stepped
      rw [progress] at fits
      split at stepped
      · contradiction
      · cases stepped
        exact invariant.commit held fits.1 fits.2 (.inl rfl)
    | recorded =>
      simp only [Leader.statement, progress, Option.some.injEq] at stepped
      subst stepped
      rw [progress] at fits
      exact invariant.commit held fits.1 fits.2.1 fits.2.2
    | _ => simp [Leader.statement, progress] at stepped
  | rollback =>
    cases stepped
    apply invariant.set (fun _ => owner)
    rintro _ ⟨⟩
  | _ => simp [Leader.statement] at stepped

theorem Invariant.append (invariant : Invariant sha256 c)
    (covered : ∀ j draft, action = .check j draft → c.lock = some i)
    (stepped : appendStep sha256 c i action = some c') : Invariant sha256 c' := by
  cases action with
  | check j draft =>
    obtain ⟨-, ⟨⟩⟩ := Option.ite_none_right_eq_some.mp stepped
    exact invariant.set (fun _ => covered j draft rfl) (invariant.fits i)
  | begin _ index =>
    simp only [appendStep] at stepped
    split at stepped
    · rename_i draft _ waits
      cases stepped
      have busy : ¬(c.replica i).Idle := by
        rintro ⟨nobody, -⟩
        rw [nobody] at waits
        contradiction
      apply invariant.set (fun _ => invariant.owned i busy)
      rintro _ ⟨⟩
      exact trivial
    · contradiction
  | abandon =>
    cases stepped
    refine invariant.set (fun busy => invariant.owned i ?_) (invariant.fits i)
    rintro ⟨nobody, noTx⟩
    exact busy ⟨by simp [nobody], noTx⟩
  | _ =>
    simp only [appendStep] at stepped
    split at stepped
    · contradiction
    · rename_i tx held
      exact invariant.statement held stepped

/-! ## Covered runs -/

theorem Invariant.step (invariant : Invariant sha256 c) (covered : Covered c action)
    (stepped : step sha256 c action = some c') :
    Invariant sha256 c' := by
  cases action with
  | check =>
    simp only [Leader.step] at stepped
    exact invariant.append (fun _ _ _ => covered) stepped
  | begin i _ | abandon i _ | lastAuditHash i _ | insert i | updateHash i | recordEpoch i
  | commit i | rollback i =>
    simp only [Leader.step] at stepped
    exact invariant.append (by rintro _ _ ⟨⟩) stepped
  | _ => exact invariant.election covered stepped

theorem Invariant.run (invariant : Invariant sha256 c)
    (run : Relation.ReflTransGen (CoveredSteps sha256) c c') : Invariant sha256 c' := by
  induction run with
  | refl => exact invariant
  | tail _ stepped ih =>
    obtain ⟨action, covered, stepped⟩ := stepped
    exact ih.step covered stepped

/-- In every state a run reaches whose appends stay under the lock, the
committed rows are one chain, and every replica's walk accepts it. -/
theorem verifyAudit_of_covered {table : AuditTable} {epoch : Option Int}
    {keyring : Option AuditKeyring} {c : Cluster ι}
    (valid : ∀ i, (verifyAudit sha256
      ((Cluster.started table epoch keyring : Cluster ι).store i) none).valid = true)
    (run : Relation.ReflTransGen (CoveredSteps sha256)
      (Cluster.started table epoch keyring) c) (i : ι) :
    Linked AuditEvent.hash AuditEvent.prevHash genesisHash c.auditLog.rows ∧
      (verifyAudit sha256 (c.store i) none).valid = true := by
  have fresh : Invariant sha256 (Cluster.started table epoch keyring : Cluster ι) := by
    constructor
    · exact fun _ busy => absurd ⟨rfl, rfl⟩ busy
    · rintro _ _ ⟨⟩
    · exact verifyRows_none_valid_iff.mp (valid i)
  have accepted : Accepts sha256 (c.store i).keySnap (c.store i).readEpoch genesisHash false
      c.auditLog.rows := (fresh.run run).verifies
  have numbered : ∀ ev ∈ c.auditLog.rows, ev.seq ≠ 0 := fun ev member =>
    (c.auditLog.assigned ev member).1.ne'
  exact ⟨((accepts_iff numbered).mp accepted).1, verifyRows_none_valid_iff.mpr accepted⟩

/-! ## Scheduled runs -/

/-- Take the actions in turn, as long as each is allowed and can happen. -/
def runActions (sha256 : Bytes → Bytes) (allowed : Cluster ι → Action ι → Bool) :
    Cluster ι → List (Action ι) → Option (Cluster ι)
  | c, [] => some c
  | c, action :: actions =>
    if allowed c action then
      (step sha256 c action).bind fun c' => runActions sha256 allowed c' actions
    else
      none

theorem reflTransGen_of_runActions {allowed : Cluster ι → Action ι → Bool}
    {relation : Cluster ι → Cluster ι → Prop} {actions : List (Action ι)}
    (related : ∀ c c' action, allowed c action = true → step sha256 c action = some c' →
      relation c c') (ran : runActions sha256 allowed c actions = some c') :
    Relation.ReflTransGen relation c c' := by
  induction actions generalizing c with
  | nil =>
    cases ran
    exact .refl
  | cons action actions ih =>
    obtain ⟨isAllowed, continued⟩ := Option.ite_none_right_eq_some.mp ran
    obtain ⟨middle, stepped, rest⟩ := Option.bind_eq_some_iff.mp continued
    exact .head (related c middle action isAllowed stepped) (ih rest)

instance (c : Cluster ι) (action : Action ι) : Decidable (Covered c action) := by
  cases action <;> unfold Covered <;> infer_instance

/-- One append of a replica that leads, without interruption. -/
def wholeAppend (i : ι) (stamp : Int) : List (Action ι) :=
  [.check i { kind := ascii "svid.issue" }, .begin i 0, .lastAuditHash i stamp, .insert i,
    .updateHash i, .commit i]

/-- One replica appends and steps down, then the other appends. -/
theorem verifyAudit_of_covered_handover :
    ∃ c : Cluster Bool, c.auditLog.rows.length = 2 ∧
      (verifyAudit Sha256.sum (c.store true) none).valid = true := by
  have computed : (runActions Sha256.sum (fun c action => Covered c action)
      (Cluster.started .empty none none)
      ([.acquire false, .announce false] ++ wholeAppend false 1 ++
        [.pingFailed false, .unlock false true, .stepDown false, .acquire true,
          .announce true] ++ wholeAppend true 2)).map
        (fun c : Cluster Bool => c.auditLog.rows.length) = some 2 := by
    decide +kernel
  obtain ⟨c, ran, length⟩ := Option.map_eq_some_iff.mp computed
  refine ⟨c, length, ?_⟩
  have run : Relation.ReflTransGen (CoveredSteps Sha256.sum) (Cluster.started .empty none none) c :=
    reflTransGen_of_runActions
      (fun _ _ action covered stepped => ⟨action, of_decide_eq_true covered, stepped⟩) ran
  exact (verifyAudit_of_covered (fun _ => rfl) run true).2

/-- The first replica has read the last hash when its session dies; the second
takes the lock and appends; the first goes on, its flag still set. -/
def staleLeader : List (Action Bool) :=
  [.acquire false, .announce false, .check false { kind := ascii "svid.issue" }, .begin false 0,
    .lastAuditHash false 1, .sessionDies false, .acquire true, .announce true] ++
  wholeAppend true 2 ++ [.insert false, .updateHash false, .commit false]

/-- Two replicas commit rows that link to the same hash, and the chain no
longer verifies. -/
theorem stale_leader_forks_chain :
    ∃ c : Cluster Bool,
      Relation.ReflTransGen (Steps Sha256.sum) (Cluster.started .empty none none) c ∧
      c.auditLog.rows.map AuditEvent.prevHash = [genesisHash, genesisHash] ∧
      ∀ i, (verifyAudit Sha256.sum (c.store i) none).valid = false := by
  have computed : (runActions Sha256.sum (fun _ _ => true) (Cluster.started .empty none none)
      staleLeader).map (fun c : Cluster Bool =>
        (c.auditLog.rows.map AuditEvent.prevHash,
          (verifyAudit Sha256.sum (c.store false) none).valid,
          (verifyAudit Sha256.sum (c.store true) none).valid)) =
      some ([genesisHash, genesisHash], false, false) := by
    decide +kernel
  obtain ⟨c, ran, report⟩ := Option.map_eq_some_iff.mp computed
  obtain ⟨links, first, second⟩ := by simpa only [Prod.mk.injEq] using report
  refine ⟨c, ?_, links, ?_⟩
  · exact reflTransGen_of_runActions (fun _ _ action _ stepped => ⟨action, stepped⟩) ran
  intro i
  cases i with
  | false => exact first
  | true => exact second

end OmegaPlane.Leader
