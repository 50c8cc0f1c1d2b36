import Mathlib.Order.Monotone.Basic
import OmegaPlane.Policies.Replay

/-!
# Reading the policies while they change

A load reads the digests, the policies and the digests again, and takes the
policies when the two reads of the digests agree.  They are the policies of one
state exactly when no change between the first two reads was undone before the
third.
-/

namespace OmegaPlane.Policies

open Audit Storage Crypto

variable {σ : Type} {sha256 : Bytes → Bytes}
  {parseSources : List (Bytes × Bytes) → Except Bytes (List Bytes)}

/-! ## Interleavings -/

/-- A load among the steps of a server: the states in order, and the state each
query of the load meets.  The keyring is not changed meanwhile. -/
structure Interleaving (sha256 : Bytes → Bytes)
    (parseSources : List (Bytes × Bytes) → Except Bytes (List Bytes))
    (states : Nat → Store σ) (time : Nat → Nat) : Prop where
  start : ∃ visited, Run sha256 parseSources visited (states 0)
  step : ∀ n, Step sha256 parseSources (states n) (states (n + 1))
  keyring : ∀ n, (states n).auditKeyring = (states 0).auditKeyring
  order : Monotone time

/-- What the queries of the load meet; a query may fail. -/
def reads (states : Nat → Store σ) (time : Nat → Nat) (fault : Nat → Option StoreError)
    (query : Nat) : Except StoreError Tables :=
  match fault query with
  | some err => .error err
  | none => .ok (tablesOf (states (time query)).db)

/-- The policies and the digests are those of a state. -/
structure IsSnapshot (s : Store σ) (items : List Policy) (digests : TextMap) : Prop where
  items : listPolicies (fun _ => .ok (tablesOf s.db)) 0 = .ok items
  digests : (recordedDigests s.db.auditLog.rows).same digests = true

/-- The digests read by a query. -/
def digestsAt (states : Nat → Store σ) (time : Nat → Nat) (query : Nat) : TextMap :=
  recordedDigests (states (time query)).db.auditLog.rows

/-- In an attempt the digests are read by the queries `3 * attempt + 1` and
`3 * attempt + 4` and the policies by the one after the first.  No change
between the first two is undone when the digests are equal again. -/
def Unreverted (sha256 : Bytes → Bytes) (states : Nat → Store σ) (time : Nat → Nat)
    (attempt : Nat) : Prop :=
  ∀ id, digestOf sha256 ((states (time (3 * attempt + 2))).db.policies.lookup id) =
    digestOf sha256 ((states (time (3 * attempt + 1))).db.policies.lookup id)

/-- The attempt is the first in which the two reads of the digests agree. -/
structure Returns (states : Nat → Store σ) (time : Nat → Nat) (attempt : Nat) : Prop where
  earlier : ∀ before < attempt,
    (digestsAt states time (3 * before + 1)).same (digestsAt states time (3 * before + 4)) = false
  agree : (digestsAt states time (3 * attempt + 1)).same
    (digestsAt states time (3 * attempt + 4)) = true

/-- The attempt that returns, if one does, met no change that was undone. -/
def Undisturbed (sha256 : Bytes → Bytes) (states : Nat → Store σ) (time : Nat → Nat) : Prop :=
  ∀ attempt < 3, Returns states time attempt → Unreverted sha256 states time attempt

section Interleaved

variable {states : Nat → Store σ} {time : Nat → Nat}

theorem Interleaving.run (interleaving : Interleaving sha256 parseSources states time) (n : Nat) :
    ∃ visited, Run sha256 parseSources visited (states n) := by
  induction n with
  | zero => exact interleaving.start
  | succ n ih =>
    obtain ⟨visited, run⟩ := ih
    exact ⟨_, run.step (interleaving.step n)⟩

variable {first second : Nat} {id : Bytes}

section

variable (interleaving : Interleaving sha256 parseSources states time)
include interleaving

/-- The chain only grows. -/
theorem Interleaving.rows_prefix (order : first ≤ second) :
    (states first).db.auditLog.rows <+: (states second).db.auditLog.rows := by
  induction order with
  | refl => exact List.prefix_refl _
  | step _ ih => exact ih.trans (interleaving.step _).effect.rows_prefix

/-- An unkeyed row does not lie past an epoch read earlier. -/
theorem Interleaving.early (order : first ≤ second) {ev : AuditEvent}
    (member : ev ∈ (states second).db.auditLog.rows) (unkeyed : ev.isUnkeyed = true) :
    pastEpoch (states first).db.keyedFromSeq ev = false := by
  obtain ⟨_, firstRun⟩ := interleaving.run first
  obtain ⟨_, secondRun⟩ := interleaving.run second
  have before := secondRun.reachable.chainInvariant.rows.beforeEpoch ev member unkeyed
  rw [secondRun.reachable.chainInvariant.epoch.epoch] at before
  rw [firstRun.reachable.chainInvariant.epoch.epoch]
  obtain ⟨later, split⟩ := interleaving.rows_prefix order
  -- the first keyed row of the shorter chain is that of the longer one
  cases found : (states first).db.auditLog.rows.find? fun ev => !ev.isUnkeyed with
  | none => rfl
  | some =>
    rw [← split, List.find?_append, found] at before
    exact before

/-- The epoch a query reads does not lie before an unkeyed row read later. -/
theorem Interleaving.readKeyedFrom (fault : Nat → Option StoreError) (query : Nat) :
    (∃ err, Policies.readKeyedFrom (reads states time fault) (states 0).auditKeyring query =
        .error (.query err)) ∨
      ∃ epoch, Policies.readKeyedFrom (reads states time fault) (states 0).auditKeyring query =
          .ok epoch ∧
        ∀ ev ∈ (states (time (query + 1))).db.auditLog.rows, ev.isUnkeyed = true →
          pastEpoch epoch ev = false := by
  cases (states 0).auditKeyring with
  | none => exact .inr ⟨none, rfl, fun _ _ _ => rfl⟩
  | some =>
  cases failed : fault query with
  | some err => exact .inl ⟨err, by simp [Policies.readKeyedFrom, reads, failed]⟩
  | none =>
  refine .inr ⟨(states (time query)).db.keyedFromSeq,
    by simp [Policies.readKeyedFrom, reads, failed, tablesOf], ?_⟩
  intro ev member unkeyed
  exact interleaving.early (interleaving.order (Nat.le_succ query)) member unkeyed

/-- A read of the digests that meets no fault gives what the chain of its state
records. -/
theorem Interleaving.digests (fault : Nat → Option StoreError) (query : Nat) :
    (∃ err, policyAuditDigests sha256 (reads states time fault) (states 0).auditKeyring query =
        .error (.query err)) ∨
      policyAuditDigests sha256 (reads states time fault) (states 0).auditKeyring query =
        .ok (recordedDigests (states (time (query + 1))).db.auditLog.rows) := by
  rcases interleaving.readKeyedFrom fault query with ⟨err, epochFails⟩ | ⟨epoch, epochRead, early⟩
  · exact .inl ⟨err, by simp [policyAuditDigests, epochFails]⟩
  cases failed : fault (query + 1) with
  | some err => exact .inl ⟨err, by simp [policyAuditDigests, epochRead, reads, failed]⟩
  | none =>
  have rowsRead : reads states time fault (query + 1) =
      .ok (tablesOf (states (time (query + 1))).db) := by
    rw [reads, failed]
  obtain ⟨_, run⟩ := interleaving.run (time (query + 1))
  have checked := run.checked early
  rw [interleaving.keyring] at checked
  exact .inr (policyAuditDigests_of_checked epochRead rowsRead checked)

end

/-! ## Attempts -/

/-- What the policies and the digests read in an attempt are. -/
def attemptResult (states : Nat → Store σ) (time : Nat → Nat) (attempt : Nat) :
    List Policy × TextMap :=
  ((states (time (3 * attempt + 2))).db.policies.rows.insertionSort fun first second =>
      first.id ≤ second.id,
    digestsAt states time (3 * attempt + 4))

/-- Errors that say nothing about the content of the database. -/
def LoadError.isTransient : LoadError → Bool
  | .query _ => true
  | .keptChanging => true
  | _ => false

theorem Interleaving.policySetFrom (interleaving : Interleaving sha256 parseSources states time)
    (fault : Nat → Option StoreError) (attempts attempt : Nat)
    (earlier : ∀ before < attempt, (digestsAt states time (3 * before + 1)).same
      (digestsAt states time (3 * before + 4)) = false) :
    (∃ err, Policies.policySetFrom sha256 (reads states time fault) (states 0).auditKeyring attempts
        (3 * attempt + 2) (digestsAt states time (3 * attempt + 1)) = .error err ∧
        err.isTransient = true) ∨
      ∃ last, last < attempt + attempts ∧ Returns states time last ∧
        Policies.policySetFrom sha256 (reads states time fault) (states 0).auditKeyring attempts
          (3 * attempt + 2) (digestsAt states time (3 * attempt + 1)) =
            .ok (attemptResult states time last) := by
  induction attempts generalizing attempt with
  | zero => exact .inl ⟨.keptChanging, rfl, rfl⟩
  | succ attempts ih =>
  rw [Policies.policySetFrom]
  cases failed : fault (3 * attempt + 2) with
  | some err => exact .inl ⟨.query err, by simp [listPolicies, reads, failed], rfl⟩
  | none =>
  have listed : listPolicies (reads states time fault) (3 * attempt + 2) =
      .ok (attemptResult states time attempt).1 := by
    simp [listPolicies, reads, failed, attemptResult, tablesOf]
  rw [listed]
  rcases interleaving.digests fault (3 * attempt + 2 + 1) with ⟨err, fails⟩ | read
  · exact .inl ⟨.query err, by simp [fails], rfl⟩
  have after : policyAuditDigests sha256 (reads states time fault)
      (states 0).auditKeyring (3 * attempt + 2 + 1) =
        .ok (digestsAt states time (3 * attempt + 4)) := read
  simp only [after]
  by_cases agree : (digestsAt states time (3 * attempt + 1)).same
      (digestsAt states time (3 * attempt + 4)) = true
  · rw [if_pos agree]
    exact .inr ⟨attempt, by omega, ⟨earlier, agree⟩, rfl⟩
  rw [if_neg agree]
  have next := ih (attempt + 1) (by
    intro before within
    rcases Nat.lt_succ_iff_lt_or_eq.mp within with less | rfl
    · exact earlier before less
    · simpa using agree)
  rcases next with fails | ⟨last, within, returns, result⟩
  · exact .inl fails
  · exact .inr ⟨last, by omega, returns, result⟩

/-- A call fails for a query or keeps meeting changes, or returns what its first
attempt with agreeing digests read. -/
theorem Interleaving.policySet (interleaving : Interleaving sha256 parseSources states time)
    (fault : Nat → Option StoreError) :
    (∃ err, Policies.policySet sha256 (reads states time fault) (states 0).auditKeyring =
        .error err ∧ err.isTransient = true) ∨
      ∃ attempt < 3, Returns states time attempt ∧
        Policies.policySet sha256 (reads states time fault) (states 0).auditKeyring =
          .ok (attemptResult states time attempt) := by
  rw [Policies.policySet]
  rcases interleaving.digests fault 0 with ⟨err, fails⟩ | read
  · exact .inl ⟨.query err, by simp [fails], rfl⟩
  have before : policyAuditDigests sha256 (reads states time fault) (states 0).auditKeyring 0 =
      .ok (digestsAt states time 1) := read
  simp only [before]
  rcases interleaving.policySetFrom fault 3 0 (by simp) with fails | ⟨attempt, within, rest⟩
  · exact .inl fails
  · exact .inr ⟨attempt, by omega, rest⟩

/-! ## The policies of one state -/

theorem lookup_recordedDigests_of_latest {rows : List AuditEvent}
    (changed : latestChange id rows ≠ none) :
    (recordedDigests rows).lookup id = some (id, recordedDigest (recordedDigests rows) id) := by
  cases latest : latestChange id rows with
  | none => exact absurd latest changed
  | some ev =>
  have lookup := lookup_recordedDigests rows id
  rw [latest, Option.map_some] at lookup
  have subject : ev.subject = id := (Table.lookup_eq_some_iff.mp lookup).2
  rw [recordedDigest, lookup, subject]
  rfl

/-- A chain that has not changed a policy has no prefix that has. -/
theorem latestChange_of_shorter {short long : List AuditEvent} (order : short <+: long)
    (untouched : latestChange id long = none) : latestChange id short = none := by
  rw [latestChange_eq_none] at untouched ⊢
  intro row member
  exact untouched row (order.subset member)

/-- The chain of a state records the digests of its policies. -/
theorem Interleaving.recorded (interleaving : Interleaving sha256 parseSources states time)
    (n : Nat) (id : Bytes) : digestOf sha256 ((states n).db.policies.lookup id) =
      recordedDigest (recordedDigests (states n).db.auditLog.rows) id := by
  obtain ⟨_, run⟩ := interleaving.run n
  rw [recordedDigest_recordedDigests, run.recorded.digest]

/-- Between two states with the same digests a state has them too exactly when
it has the same digest for every policy. -/
theorem Interleaving.same_iff (interleaving : Interleaving sha256 parseSources states time)
    {middle last : Nat} (early : first ≤ middle) (late : middle ≤ last)
    (agree : (recordedDigests (states first).db.auditLog.rows).same
      (recordedDigests (states last).db.auditLog.rows) = true) :
    (recordedDigests (states middle).db.auditLog.rows).same
        (recordedDigests (states last).db.auditLog.rows) = true ↔
      ∀ id, digestOf sha256 ((states middle).db.policies.lookup id) =
        digestOf sha256 ((states first).db.policies.lookup id) := by
  have recorded := interleaving.recorded
  have ends : ∀ id, (recordedDigests (states first).db.auditLog.rows).lookup id =
      (recordedDigests (states last).db.auditLog.rows).lookup id :=
    Table.lookup_eq_of_same agree
  constructor
  · intro same id
    rw [recorded, recorded, recordedDigest, recordedDigest, Table.lookup_eq_of_same same, ends]
  intro digests
  apply Table.same_of_lookup_eq
  intro id
  by_cases untouched : latestChange id (states last).db.auditLog.rows = none
  · rw [lookup_recordedDigests, lookup_recordedDigests, untouched,
      latestChange_of_shorter (interleaving.rows_prefix late) untouched]
  -- the policy was changed before the first state, so it has a record in all three
  have firstChanged : latestChange id (states first).db.auditLog.rows ≠ none := by
    intro none
    have lookup := ends id
    rw [lookup_recordedDigests, none, lookup_recordedDigests_of_latest untouched] at lookup
    contradiction
  have middleChanged : latestChange id (states middle).db.auditLog.rows ≠ none := fun none =>
    firstChanged (latestChange_of_shorter (interleaving.rows_prefix early) none)
  rw [lookup_recordedDigests_of_latest middleChanged, ← ends,
    lookup_recordedDigests_of_latest firstChanged, ← recorded, ← recorded, digests]

section Attempt

variable {attempt : Nat}

section

variable (interleaving : Interleaving sha256 parseSources states time)
include interleaving

/-- The digests an attempt returns are those of the policies before it. -/
theorem Interleaving.recorded_of_returns (returns : Returns states time attempt) (id : Bytes) :
    recordedDigest (attemptResult states time attempt).2 id =
      digestOf sha256 ((states (time (3 * attempt + 1))).db.policies.lookup id) := by
  rw [interleaving.recorded, recordedDigest, recordedDigest]
  exact congrArg (fun record => (record.map Prod.snd).getD [])
    (Table.lookup_eq_of_same returns.agree id).symm

/-- The comparison of what an attempt read passes exactly when no change was
undone. -/
theorem Interleaving.matchAuditChain_iff (returns : Returns states time attempt) :
    matchAuditChain sha256 (attemptResult states time attempt).1
        (attemptResult states time attempt).2 = .ok () ↔
      Unreverted sha256 states time attempt := by
  have listed : (attemptResult states time attempt).1.Perm
      (states (time (3 * attempt + 2))).db.policies.rows :=
    List.perm_insertionSort _ _
  rw [Policies.matchAuditChain_iff listed]
  simp only [interleaving.recorded_of_returns returns]
  rfl

/-- What an attempt read is one state exactly when no change was undone. -/
theorem Interleaving.isSnapshot_iff (returns : Returns states time attempt) :
    (∃ n, IsSnapshot (states n) (attemptResult states time attempt).1
        (attemptResult states time attempt).2) ↔
      Unreverted sha256 states time attempt := by
  constructor
  · rintro ⟨n, items, digests⟩ id
    have perm : ((states n).db.policies.rows).Perm
        (states (time (3 * attempt + 2))).db.policies.rows :=
      (List.perm_insertionSort _ _).symm.trans
        ((List.Perm.of_eq (Except.ok.inj items)).trans (List.perm_insertionSort _ _))
    have policies : (states n).db.policies.lookup id =
        (states (time (3 * attempt + 2))).db.policies.lookup id :=
      Table.lookup_congr fun row _ => perm.mem_iff
    rw [← policies, interleaving.recorded, ← interleaving.recorded_of_returns returns,
      recordedDigest, recordedDigest, Table.lookup_eq_of_same digests]
  · intro unreverted
    have middle := interleaving.same_iff (interleaving.order (Nat.le_succ (3 * attempt + 1)))
      (interleaving.order (show 3 * attempt + 2 ≤ 3 * attempt + 4 by omega)) returns.agree
    exact ⟨time (3 * attempt + 2), rfl, middle.mpr unreverted⟩

end

end Attempt

/-- An error that reports the content of the database. -/
def LoadError.reportsTampering : LoadError → Bool
  | .rowUnverified _ _ => true
  | .differs _ _ _ => true
  | .missing _ => true
  | _ => false

theorem Returns.unique (firstReturns : Returns states time first)
    (secondReturns : Returns states time second) : first = second := by
  rcases Nat.lt_trichotomy first second with less | equal | greater
  · exact absurd firstReturns.agree (by simp [secondReturns.earlier first less])
  · exact equal
  · exact absurd secondReturns.agree (by simp [firstReturns.earlier second greater])

theorem undisturbed_iff {attempt : Nat} (within : attempt < 3)
    (returns : Returns states time attempt) :
    Undisturbed sha256 states time ↔ Unreverted sha256 states time attempt := by
  constructor
  · intro undisturbed
    exact undisturbed attempt within returns
  · intro unreverted other _ otherReturns
    rw [otherReturns.unique returns]
    exact unreverted

theorem reports_of_match {load : Except LoadError Engine}
    (reported : (match load with
      | .error err => err.reportsTampering
      | .ok _ => false) = true) :
    ∃ err, load = .error err ∧ err.reportsTampering = true := by
  cases load with
  | error err => exact ⟨err, rfl, reported⟩
  | ok => contradiction

variable {items : List Policy}

/-- A comparison that fails reports tampering. -/
theorem matchAuditChain_reports {recorded : TextMap} {err : LoadError}
    (failed : matchAuditChain sha256 items recorded = .error err) :
    err.reportsTampering = true := by
  unfold matchAuditChain at failed
  split at failed
  · obtain rfl := Except.error.inj failed
    rfl
  · split at failed
    · obtain rfl := Except.error.inj failed
      rfl
    · contradiction

/-- What a call returns are the policies and the digests of one state exactly
when no change made before the policies were read was undone before the digests
were read again. -/
theorem Interleaving.policySet_iff (interleaving : Interleaving sha256 parseSources states time)
    {fault : Nat → Option StoreError} {digests : TextMap}
    (result : Policies.policySet sha256 (reads states time fault) (states 0).auditKeyring =
      .ok (items, digests)) :
    (∃ n, IsSnapshot (states n) items digests) ↔ Undisturbed sha256 states time := by
  rcases interleaving.policySet fault with ⟨err, failed, -⟩ | ⟨attempt, within, returns, read⟩
  · rw [failed] at result
    contradiction
  · have results : attemptResult states time attempt = (items, digests) :=
      Except.ok.inj (read.symm.trans result)
    have snapshot := interleaving.isSnapshot_iff returns
    rw [results] at snapshot
    rw [undisturbed_iff within returns]
    exact snapshot

/-- A load reports tampering exactly where it read the policies and a change was
undone. -/
theorem Interleaving.reports_iff (interleaving : Interleaving sha256 parseSources states time)
    (fault : Nat → Option StoreError) (engine : Engine) :
    (∃ err, loadStoredPolicies sha256 (reads states time fault) (states 0).auditKeyring
          parseSources engine = .error err ∧ err.reportsTampering = true) ↔
      (∃ items digests, Policies.policySet sha256 (reads states time fault)
          (states 0).auditKeyring = .ok (items, digests)) ∧
        ¬Undisturbed sha256 states time := by
  rcases interleaving.policySet fault with ⟨err, failed, transient⟩ | ⟨attempt, within, returns, read⟩
  · simp only [loadStoredPolicies, failed]
    constructor
    · rintro ⟨_, same, reports⟩
      obtain rfl := Except.error.inj same
      cases err <;> contradiction
    · rintro ⟨⟨_, _, impossible⟩, -⟩
      contradiction
  · have compared := interleaving.matchAuditChain_iff returns
    rw [undisturbed_iff within returns]
    simp only [loadStoredPolicies, read]
    cases matched : matchAuditChain sha256 (attemptResult states time attempt).1
        (attemptResult states time attempt).2 with
    | ok =>
      simp only
      constructor
      · rintro ⟨err, failed, reports⟩
        split at failed
        · obtain rfl := Except.error.inj failed
          contradiction
        · contradiction
      · rintro ⟨-, reverted⟩
        exact absurd (compared.mp matched) reverted
    | error err =>
      constructor
      · intro _
        refine ⟨⟨_, _, rfl⟩, fun unreverted => ?_⟩
        rw [compared.mpr unreverted] at matched
        contradiction
      · intro _
        exact ⟨err, rfl, matchAuditChain_reports matched⟩

/-- A read of the policies gives one state, and a load of it reports no
tampering, exactly when no change was undone between its reads. -/
theorem policySet_isSnapshot_iff (interleaving : Interleaving sha256 parseSources states time)
    (fault : Nat → Option StoreError) {items : List Policy} {digests : TextMap}
    (result : policySet sha256 (reads states time fault) (states 0).auditKeyring =
      .ok (items, digests)) :
    ((∃ n, IsSnapshot (states n) items digests) ↔ Undisturbed sha256 states time) ∧
    ∀ engine, (∀ err, loadStoredPolicies sha256 (reads states time fault) (states 0).auditKeyring
          parseSources engine = .error err → err.reportsTampering = false) ↔
      Undisturbed sha256 states time := by
  refine ⟨interleaving.policySet_iff result, fun engine => ?_⟩
  have reports := interleaving.reports_iff fault engine
  constructor
  · intro silent
    by_contra disturbed
    obtain ⟨err, failed, reported⟩ := reports.mpr ⟨⟨items, digests, result⟩, disturbed⟩
    rw [silent err failed] at reported
    contradiction
  · intro undisturbed err failed
    by_contra reported
    exact (reports.mp ⟨err, failed, by simpa using reported⟩).2 undisturbed

end Interleaved

/-! ## A change undone during a load -/

/-- The policy `a` permits everything, then nothing, then everything again. -/
def revertedStates : Nat → Store Unit
  | 0 => .opened .sqlite () ⟨false, false⟩ none
  | 1 => (createPolicy oneEach Sha256.sum adminConfig adminRequest (revertedStates 0) (.clean 1)
      (ascii "a") permitAll).1
  | 2 => (updatePolicy oneEach Sha256.sum adminConfig adminRequest (revertedStates 1) (.clean 2)
      (ascii "a") [] forbidAll).1
  | 3 => (updatePolicy oneEach Sha256.sum adminConfig adminRequest (revertedStates 2) (.clean 3)
      (ascii "a") [] permitAll).1
  | n + 4 => revertedStates (n + 3)

/-- A request does not change the keyring. -/
theorem Submitted.auditKeyring {id : Bytes} {text : Option Bytes} {s s' : Store σ}
    (submitted : Submitted sha256 id text s s') : s'.auditKeyring = s.auditKeyring := by
  cases submitted with
  | nothing same => rw [same]
  | refused call draft other after =>
    rw [after]
    rcases appendAudit_outcome s call draft with unchanged | appends
    · rw [unchanged]
    · exact appends.auditKeyring
  | changed call change records leaves after =>
    rw [after]
    rcases changePolicy_outcome s call id change with unchanged | ⟨kept, -, -⟩
    · rw [unchanged]
    · exact kept

theorem revertedStates_interleaving {time : Nat → Nat} (order : Monotone time) :
    Interleaving Sha256.sum oneEach revertedStates time where
  start := ⟨_, .start .sqlite () ⟨false, false⟩ none⟩
  step := by
    intro n
    match n with
    | 0 => exact .create _ _ _ _ _ _
    | 1 => exact .update _ _ _ _ _ _ _
    | 2 => exact .update _ _ _ _ _ _ _
    | n + 3 => exact .elect _ _
  keyring := by
    intro n
    induction n with
    | zero => rfl
    | succ n ih =>
    rw [← ih]
    match n with
    | 0 => exact (createPolicy_submitted _ _ _ _ _ _).auditKeyring
    | 1 => exact (updatePolicy_submitted _ _ _ _ _ _ _).auditKeyring
    | 2 => exact (updatePolicy_submitted _ _ _ _ _ _ _).auditKeyring
    | n + 3 => rfl
  order := order

/-- The digests are read before the first change, the policies between the two,
and the digests again after the second. -/
def revertedTime (query : Nat) : Nat :=
  if query < 2 then 1 else if query = 2 then 2 else 3

theorem revertedTime_monotone : Monotone revertedTime := by
  intro first second order
  simp only [revertedTime]
  grind

/-- The policies read are of no state with the digests read, and the load reports
tampering although only the API wrote the policies. -/
theorem reverted_change_reported :
    Interleaving Sha256.sum oneEach revertedStates revertedTime ∧
    (∃ items digests, policySet Sha256.sum (reads revertedStates revertedTime fun _ => none) none =
        .ok (items, digests) ∧ ¬∃ n, IsSnapshot (revertedStates n) items digests) ∧
    ∃ err, loadStoredPolicies Sha256.sum (reads revertedStates revertedTime fun _ => none) none
        oneEach emptyEngine = .error err ∧ err.reportsTampering = true := by
  have interleaving := revertedStates_interleaving revertedTime_monotone
  have reported : ∃ err, loadStoredPolicies Sha256.sum
      (reads revertedStates revertedTime fun _ => none) none oneEach emptyEngine = .error err ∧
        err.reportsTampering = true := by
    apply reports_of_match
    decide +kernel
  obtain ⟨⟨items, digests, result⟩, disturbed⟩ :=
    (interleaving.reports_iff (fun _ => none) emptyEngine).mp reported
  exact ⟨interleaving, ⟨items, digests, result, fun snapshot =>
    disturbed ((interleaving.policySet_iff result).mp snapshot)⟩, reported⟩

/-- Read at one time, the policies are those of a state. -/
theorem policySet_isSnapshot_iff_steady :
    ∃ items digests, policySet Sha256.sum (reads revertedStates (fun _ => 1) fun _ => none) none =
      .ok (items, digests) ∧ ∃ n, IsSnapshot (revertedStates n) items digests := by
  have interleaving : Interleaving Sha256.sum oneEach revertedStates fun _ => 1 :=
    revertedStates_interleaving monotone_const
  obtain ⟨_, run⟩ := interleaving.run 1
  have result := run.policySet
  rw [interleaving.keyring] at result
  have undisturbed : Undisturbed Sha256.sum revertedStates fun _ => 1 := fun _ _ _ _ => rfl
  exact ⟨_, _, result,
    (policySet_isSnapshot_iff interleaving (fun _ => none) result).1.mpr undisturbed⟩

end OmegaPlane.Policies
