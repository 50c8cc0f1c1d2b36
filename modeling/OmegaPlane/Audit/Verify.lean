import OmegaPlane.Audit.Keyring
import OmegaPlane.Chain.Linked

/-!
# The verification walk

`VerifyAudit` reads the rows in sequence order, checks each one's link and
code, and stops at the first failure.  A failing row is reported by storing its
sequence number in `FirstBadSeq`, where zero also means that no row failed; so
a failing row whose number is zero is passed over.

The walk is characterized once, by `Accepts`; for rows with non-zero numbers
this is linkage, authenticity of every row and the absence of a downgrade.
-/

namespace OmegaPlane.Audit

open Chain

/-- A published checkpoint: the chain held `count` rows ending in `headHash`. -/
structure AuditAnchor where
  headHash : Bytes
  count : Int
  deriving DecidableEq

/-- The result of walking the chain. -/
structure AuditVerification where
  valid : Bool
  firstBadSeq : Int
  truncated : Bool
  count : Int
  headHash : Bytes
  deriving DecidableEq

/-- The checkpoint a report is published as. -/
def AuditVerification.anchor (report : AuditVerification) : AuditAnchor :=
  ⟨report.headHash, report.count⟩

/-- The variables of the loop over the rows. -/
structure Walk where
  firstBadSeq : Int
  count : Int
  headHash : Bytes
  prev : Bytes
  sawAnchorHead : Bool
  sawKeyed : Bool
  deriving DecidableEq

variable (sha256 : Bytes → Bytes) (keys : Option KeySet) (epoch : Option Int)

/-- The key a row is checked under: the empty key for an unkeyed row, else the
loaded key of that id, if a keyring is loaded and holds it. -/
def rowKey (ev : AuditEvent) : Option Bytes :=
  if ev.isUnkeyed then some []
  else
    match keys with
    | none => none
    | some keySnap => keySnap.lookup ev.keyID

/-- The keying epoch is known and the row lies at or past it. -/
def pastEpoch (ev : AuditEvent) : Bool :=
  match epoch with
  | none => false
  | some keyedFrom => keyedFrom ≤ ev.seq

/-- The checks on one row, given the hash before it and whether a keyed row
came before. -/
def rowFails (prev : Bytes) (sawKeyed : Bool) (ev : AuditEvent) : Bool :=
  if keys.isSome && ev.isUnkeyed && pastEpoch epoch ev then true
  else if keys.isSome && ev.isUnkeyed && sawKeyed then true
  else
    match rowKey keys ev with
    | none => true
    | some key =>
      ev.prevHash ≠ prev ∨ Hex.decodeString ev.hash ≠ some (macAuditEvent sha256 ev key)

/-- One pass through the loop body, up to the test for leaving the loop. -/
def verifyStep (anchor : Option AuditAnchor) (walk : Walk) (ev : AuditEvent) : Walk where
  firstBadSeq :=
    if walk.firstBadSeq = 0 ∧ rowFails sha256 keys epoch walk.prev walk.sawKeyed ev then
      ev.seq
    else
      walk.firstBadSeq
  count := walk.count + 1
  headHash := ev.hash
  prev := ev.hash
  sawAnchorHead := walk.sawAnchorHead || anchor.any fun a => ev.hash = a.headHash
  sawKeyed := walk.sawKeyed || !ev.isUnkeyed

/-- The loop: it is left at the first row that sets `firstBadSeq`. -/
@[simp]
def verifyWalk (anchor : Option AuditAnchor) : Walk → List AuditEvent → Walk
  | walk, [] => walk
  | walk, ev :: rows =>
    let walk' := verifyStep sha256 keys epoch anchor walk ev
    if walk'.firstBadSeq ≠ 0 then walk' else verifyWalk anchor walk' rows

/-- The variables before the first row. -/
def startWalk (anchor : Option AuditAnchor) : Walk where
  firstBadSeq := 0
  count := 0
  headHash := genesisHash
  prev := genesisHash
  sawAnchorHead := anchor.any fun a => a.headHash = genesisHash
  sawKeyed := false

/-- The result computed from the variables after the loop. -/
def verification (anchor : Option AuditAnchor) (walk : Walk) : AuditVerification :=
  let truncated :=
    match anchor with
    | none => false
    | some a => walk.firstBadSeq = 0 ∧ (walk.count < a.count ∨ !walk.sawAnchorHead)
  { valid := walk.firstBadSeq = 0 ∧ !truncated
    firstBadSeq := walk.firstBadSeq
    truncated := truncated
    count := walk.count
    headHash := walk.headHash }

/-- `VerifyAudit` over the rows in sequence order, with the keys of the loaded
keyring and the stored keying epoch. -/
def verifyRows (anchor : Option AuditAnchor) (rows : List AuditEvent) : AuditVerification :=
  verification anchor (verifyWalk sha256 keys epoch anchor (startWalk anchor) rows)

/-! ## What the walk accepts -/

/-- Every row with a non-zero number passes its checks. -/
def Accepts : Bytes → Bool → List AuditEvent → Prop
  | _, _, [] => True
  | prev, sawKeyed, ev :: rows =>
    (ev.seq = 0 ∨ rowFails sha256 keys epoch prev sawKeyed ev = false) ∧
      Accepts ev.hash (sawKeyed || !ev.isUnkeyed) rows

/-- A row's stored hash is the hex text of its code under its key. -/
def Authentic (ev : AuditEvent) : Prop :=
  ∃ key, rowKey keys ev = some key ∧ Hex.decodeString ev.hash = some (macAuditEvent sha256 ev key)

/-- With a keyring loaded, unkeyed rows lie before the epoch and before every
keyed row. -/
structure NoDowngrade (sawKeyed : Bool) (rows : List AuditEvent) : Prop where
  beforeEpoch : keys.isSome → ∀ ev ∈ rows, ev.isUnkeyed → pastEpoch epoch ev = false
  afterKeyed : keys.isSome → sawKeyed → ∀ ev ∈ rows, ev.isUnkeyed = false
  contiguous : keys.isSome →
    rows.Pairwise fun earlier later => earlier.isUnkeyed = false → later.isUnkeyed = false

variable {sha256 keys epoch}

variable {first second ev : AuditEvent} {prev : Bytes} {sawKeyed : Bool} {keys' : Option KeySet}

theorem isUnkeyed_congr (keyIDs : first.keyID = second.keyID) :
    first.isUnkeyed = second.isUnkeyed := by
  unfold AuditEvent.isUnkeyed
  rw [keyIDs]

theorem rowKey_congr (keyIDs : first.keyID = second.keyID) :
    rowKey keys first = rowKey keys second := by
  unfold rowKey
  rw [isUnkeyed_congr keyIDs, keyIDs]

theorem rowFails_eq_false_iff :
    rowFails sha256 keys epoch prev sawKeyed ev = false ↔
      ev.prevHash = prev ∧ Authentic sha256 keys ev ∧
        (keys.isSome → ev.isUnkeyed → pastEpoch epoch ev = false) ∧
        (keys.isSome → sawKeyed → ev.isUnkeyed = false) := by
  unfold rowFails Authentic
  by_cases loaded : keys.isSome = true
  · by_cases unkeyed : ev.isUnkeyed = true
    · by_cases past : pastEpoch epoch ev = true
      · simp [loaded, unkeyed, past]
      · by_cases seen : sawKeyed = true
        · simp [loaded, unkeyed, seen]
        · simp only [Bool.not_eq_true] at past seen
          simp [loaded, unkeyed, past, seen, rowKey]
    · simp only [Bool.not_eq_true] at unkeyed
      cases resolved : rowKey keys ev with
      | none | some => simp [unkeyed]
  · simp only [Bool.not_eq_true] at loaded
    cases resolved : rowKey keys ev with
    | none | some => simp [loaded]

theorem Authentic.hash_ne (authentic : Authentic sha256 keys ev) : ev.hash ≠ genesisHash := by
  obtain ⟨key, -, decoded⟩ := authentic
  exact genesisHash_ne_of_decodeString decoded

/-- A row sealed under the key it names is authentic. -/
theorem authentic_sealRow {key : Bytes} (resolved : rowKey keys ev = some key) :
    Authentic sha256 keys (sealRow sha256 ev key) := by
  have sameKey : rowKey keys (sealRow sha256 ev key) = rowKey keys ev := rowKey_congr rfl
  exact ⟨key, sameKey.trans resolved, decodeString_sealRow_hash sha256 ev key⟩

/-- Rows stay authentic when keys are only added. -/
theorem Authentic.of_extends {old new : KeySet} (keysKept : Extends old new)
    (authentic : Authentic sha256 (some old) ev) : Authentic sha256 (some new) ev := by
  obtain ⟨key, resolved, decoded⟩ := authentic
  refine ⟨key, ?_, decoded⟩
  unfold rowKey at resolved ⊢
  split
  · rename_i unkeyed
    rwa [if_pos unkeyed] at resolved
  · rename_i keyed
    rw [if_neg keyed] at resolved
    exact keysKept ev.keyID key resolved

/-- Unkeyed rows are authentic whatever keys are loaded. -/
theorem Authentic.of_unkeyed {keys : Option KeySet} (unkeyed : ev.isUnkeyed = true)
    (authentic : Authentic sha256 keys ev) :
    Authentic sha256 keys' ev := by
  obtain ⟨key, resolved, decoded⟩ := authentic
  refine ⟨key, ?_, decoded⟩
  simpa [rowKey, unkeyed] using resolved

variable {rows : List AuditEvent} {epoch' : Option Int} {anchor : Option AuditAnchor} {walk : Walk}

/-- For rows with non-zero numbers, acceptance is linkage, authenticity of
every row and the absence of a downgrade. -/
theorem accepts_iff (numbered : ∀ ev ∈ rows, ev.seq ≠ 0) :
    Accepts sha256 keys epoch prev sawKeyed rows ↔
      Linked AuditEvent.hash AuditEvent.prevHash prev rows ∧
        (∀ ev ∈ rows, Authentic sha256 keys ev) ∧
        NoDowngrade keys epoch sawKeyed rows := by
  induction rows generalizing prev sawKeyed with
  | nil =>
    simp only [Accepts, linked_nil, List.not_mem_nil, false_imp_iff, implies_true,
      true_and, true_iff]
    exact ⟨by simp, by simp, by simp⟩
  | cons ev rows ih =>
    have evNumbered : ev.seq ≠ 0 := numbered ev (by simp)
    have restNumbered : ∀ later ∈ rows, later.seq ≠ 0 := fun later member =>
      numbered later (by simp [member])
    simp only [Accepts, evNumbered, false_or, ih restNumbered, rowFails_eq_false_iff, linked_cons]
    constructor
    · rintro ⟨⟨linkEq, authentic, notPast, notAfter⟩, linked, allAuthentic, downgrade⟩
      refine ⟨⟨linkEq, linked⟩, ?_, ?_, ?_, ?_⟩
      · simpa using ⟨authentic, allAuthentic⟩
      · intro loaded
        simpa using ⟨notPast loaded, downgrade.beforeEpoch loaded⟩
      · intro loaded seen
        simpa using ⟨notAfter loaded seen, downgrade.afterKeyed loaded (by simp [seen])⟩
      · intro loaded
        refine List.pairwise_cons.mpr ⟨?_, downgrade.contiguous loaded⟩
        intro later member keyed
        exact downgrade.afterKeyed loaded (by simp [keyed]) later member
    · rintro ⟨⟨linkEq, linked⟩, allAuthentic, downgrade⟩
      refine ⟨⟨linkEq, allAuthentic ev (by simp), ?_, ?_⟩, linked, ?_, ?_, ?_, ?_⟩
      · exact fun loaded => downgrade.beforeEpoch loaded ev (by simp)
      · exact fun loaded seen => downgrade.afterKeyed loaded seen ev (by simp)
      · exact fun later member => allAuthentic later (by simp [member])
      · exact fun loaded later member => downgrade.beforeEpoch loaded later (by simp [member])
      · intro loaded seen later member
        rcases Bool.or_eq_true_iff.mp seen with before | keyed
        · exact downgrade.afterKeyed loaded before later (by simp [member])
        · exact (List.pairwise_cons.mp (downgrade.contiguous loaded)).1 later member
            (by simpa using keyed)
      · exact fun loaded => (List.pairwise_cons.mp (downgrade.contiguous loaded)).2

/-- A row that links to the last one and is authentic extends accepted rows; with
a keyring loaded it has to be keyed, and the epoch may move past no unkeyed
row. -/
theorem Accepts.concat {row : AuditEvent}
    (accepted : Accepts sha256 keys epoch genesisHash false rows)
    (numbered : ∀ ev ∈ rows, ev.seq ≠ 0) (rowNumbered : row.seq ≠ 0)
    (linkEq : row.prevHash = tip AuditEvent.hash genesisHash rows)
    (authentic : Authentic sha256 keys row) (keyed : keys.isSome = true → row.isUnkeyed = false)
    (epochs : ∀ ev ∈ rows, pastEpoch epoch ev = false → pastEpoch epoch' ev = false) :
    Accepts sha256 keys epoch' genesisHash false (rows ++ [row]) := by
  obtain ⟨linked, allAuthentic, downgrade⟩ := (accepts_iff numbered).mp accepted
  have allNumbered : ∀ ev ∈ rows ++ [row], ev.seq ≠ 0 := by
    intro ev member
    rcases List.mem_append.mp member with old | new
    · exact numbered ev old
    · rwa [List.mem_singleton.mp new]
  refine (accepts_iff allNumbered).mpr ⟨(linked_concat _ _ _).mpr ⟨linked, linkEq⟩, ?_, ?_⟩
  · intro ev member
    rcases List.mem_append.mp member with old | new
    · exact allAuthentic ev old
    · rwa [List.mem_singleton.mp new]
  · constructor
    · intro loaded ev member unkeyed
      rcases List.mem_append.mp member with old | new
      · exact epochs ev old (downgrade.beforeEpoch loaded ev old unkeyed)
      · rw [List.mem_singleton.mp new, keyed loaded] at unkeyed
        contradiction
    · simp
    · intro loaded
      refine List.pairwise_append.mpr ⟨downgrade.contiguous loaded, List.pairwise_singleton _ _, ?_⟩
      intro earlier _ later member _
      rw [List.mem_singleton.mp member]
      exact keyed loaded

theorem Accepts.authentic (accepted : Accepts sha256 keys epoch prev sawKeyed rows)
    (member : ev ∈ rows) (numbered : ev.seq ≠ 0) : Authentic sha256 keys ev := by
  induction rows generalizing prev sawKeyed with
  | nil => simp at member
  | cons first rest ih =>
  obtain ⟨passed, restAccepted⟩ := accepted
  rcases List.mem_cons.mp member with rfl | later
  · rcases passed with zero | passed
    · exact absurd zero numbered
    · exact (rowFails_eq_false_iff.mp passed).2.1
  · exact ih restAccepted later

/-- Acceptance carries over to other keys and another epoch under which every
row that passes still passes. -/
theorem Accepts.imp
    (passes : ∀ ev ∈ rows, ∀ before seen,
      rowFails sha256 keys epoch before seen ev = false →
        rowFails sha256 keys' epoch' before seen ev = false)
    (accepted : Accepts sha256 keys epoch prev sawKeyed rows) :
    Accepts sha256 keys' epoch' prev sawKeyed rows := by
  induction rows generalizing prev sawKeyed with
  | nil => exact trivial
  | cons ev rows ih =>
  obtain ⟨passed, rest⟩ := accepted
  constructor
  · rcases passed with zero | passed
    · exact .inl zero
    · exact .inr (passes ev (by simp) prev sawKeyed passed)
  · exact ih (fun later member => passes later (by simp [member])) rest

/-- A walk over accepted rows reaches the end, counts every row and ends at
the last hash. -/
theorem verifyWalk_of_accepts (clean : walk.firstBadSeq = 0) (heads : walk.headHash = walk.prev)
    (accepted : Accepts sha256 keys epoch walk.prev walk.sawKeyed rows) :
    verifyWalk sha256 keys epoch anchor walk rows =
      { firstBadSeq := 0
        count := walk.count + rows.length
        headHash := tip AuditEvent.hash walk.prev rows
        prev := tip AuditEvent.hash walk.prev rows
        sawAnchorHead := walk.sawAnchorHead ||
          rows.any fun ev => anchor.any fun a => ev.hash = a.headHash
        sawKeyed := walk.sawKeyed || rows.any fun ev => !ev.isUnkeyed } := by
  induction rows generalizing walk with
  | nil =>
    cases walk
    simp_all
  | cons ev rows ih =>
  obtain ⟨passed, rest⟩ := accepted
  have stillClean : (verifyStep sha256 keys epoch anchor walk ev).firstBadSeq = 0 := by
    rcases passed with zero | passed
    · simp [verifyStep, clean, zero]
    · simp [verifyStep, clean, passed]
  rw [verifyWalk]
  simp only [stillClean, ne_eq, not_true_eq_false, if_false]
  rw [ih stillClean rfl rest]
  simp only [verifyStep, List.length_cons, Nat.cast_add, Nat.cast_one, tip_cons,
    List.any_cons, Bool.or_assoc, Walk.mk.injEq, and_true, true_and]
  omega

/-- The walk reports no failure exactly on accepted rows. -/
theorem verifyWalk_firstBadSeq_eq_zero_iff (clean : walk.firstBadSeq = 0) :
    (verifyWalk sha256 keys epoch anchor walk rows).firstBadSeq = 0 ↔
      Accepts sha256 keys epoch walk.prev walk.sawKeyed rows := by
  induction rows generalizing walk with
  | nil => simp [Accepts, clean]
  | cons ev rows ih =>
  have stepValue : (verifyStep sha256 keys epoch anchor walk ev).firstBadSeq =
      if rowFails sha256 keys epoch walk.prev walk.sawKeyed ev then ev.seq else 0 := by
    simp [verifyStep, clean]
  rw [verifyWalk, Accepts]
  by_cases bad : (verifyStep sha256 keys epoch anchor walk ev).firstBadSeq = 0
  · simp only [bad, ne_eq, not_true_eq_false, if_false]
    rw [ih bad]
    have passed : ev.seq = 0 ∨ rowFails sha256 keys epoch walk.prev walk.sawKeyed ev = false := by
      rw [stepValue] at bad
      split at bad
      · exact .inl bad
      · rename_i passes
        exact .inr (by simpa using passes)
    exact ⟨fun rest => ⟨passed, rest⟩, fun both => both.2⟩
  · simp only [ne_eq, bad, not_false_eq_true, if_true, false_iff]
    rintro ⟨passed, -⟩
    apply bad
    rw [stepValue]
    rcases passed with zero | passed
    · simp [zero]
    · simp [passed]

/-- Without an anchor the verdict is acceptance of the rows. -/
theorem verifyRows_none_valid_iff :
    (verifyRows sha256 keys epoch none rows).valid = true ↔
      Accepts sha256 keys epoch genesisHash false rows := by
  have walked : (verifyWalk sha256 keys epoch none (startWalk none) rows).firstBadSeq = 0 ↔
      Accepts sha256 keys epoch genesisHash false rows :=
    verifyWalk_firstBadSeq_eq_zero_iff rfl
  simpa [verifyRows, verification] using walked

/-- The full report on accepted rows. -/
theorem verifyRows_of_accepts (accepted : Accepts sha256 keys epoch genesisHash false rows) :
    verifyRows sha256 keys epoch anchor rows =
      verification anchor
        { firstBadSeq := 0
          count := rows.length
          headHash := tip AuditEvent.hash genesisHash rows
          prev := tip AuditEvent.hash genesisHash rows
          sawAnchorHead := (startWalk anchor).sawAnchorHead ||
            rows.any fun ev => anchor.any fun a => ev.hash = a.headHash
          sawKeyed := rows.any fun ev => !ev.isUnkeyed } := by
  have started : Accepts sha256 keys epoch (startWalk anchor).prev
      (startWalk anchor).sawKeyed rows := accepted
  rw [verifyRows, verifyWalk_of_accepts rfl rfl started]
  simp [startWalk]

/-- With an anchor the verdict is acceptance of the rows, at least the anchored
number of them and the anchored head among their hashes. -/
theorem verifyRows_some_valid_iff {anchor : AuditAnchor} :
    (verifyRows sha256 keys epoch (some anchor) rows).valid = true ↔
      Accepts sha256 keys epoch genesisHash false rows ∧ anchor.count ≤ rows.length ∧
        (anchor.headHash = genesisHash ∨ ∃ ev ∈ rows, ev.hash = anchor.headHash) := by
  by_cases accepted : Accepts sha256 keys epoch genesisHash false rows
  · rw [verifyRows_of_accepts accepted]
    simp [verification, startWalk, accepted]
  · have rejected : (verifyWalk sha256 keys epoch (some anchor) (startWalk (some anchor))
        rows).firstBadSeq ≠ 0 := by
      intro clean
      have started : (startWalk (some anchor)).firstBadSeq = 0 := rfl
      exact accepted ((verifyWalk_firstBadSeq_eq_zero_iff started).mp clean)
    simp [verifyRows, verification, rejected, accepted]

/-- An invalid report names a failing row or a truncation. -/
theorem verifyRows_invalid (invalid : (verifyRows sha256 keys epoch anchor rows).valid = false) :
    (verifyRows sha256 keys epoch anchor rows).firstBadSeq ≠ 0 ∨
      (verifyRows sha256 keys epoch anchor rows).truncated = true := by
  by_contra neither
  rw [not_or, not_not, Bool.not_eq_true] at neither
  have verdict : (verifyRows sha256 keys epoch anchor rows).valid =
      decide ((verifyRows sha256 keys epoch anchor rows).firstBadSeq = 0 ∧
        (!(verifyRows sha256 keys epoch anchor rows).truncated) = true) := rfl
  rw [verdict] at invalid
  simp [neither] at invalid

/-- A walk over rejected rows ends at the first failing row, after accepted
ones. -/
theorem verifyWalk_of_rejected {anchor : Option AuditAnchor} {walk : Walk}
    {rows : List AuditEvent} (clean : walk.firstBadSeq = 0)
    (rejected : ¬Accepts sha256 keys epoch walk.prev walk.sawKeyed rows) :
    ∃ before ev after, rows = before ++ ev :: after ∧
      rowFails sha256 keys epoch (tip AuditEvent.hash walk.prev before)
        (walk.sawKeyed || before.any fun row => !row.isUnkeyed) ev = true ∧
      (verifyWalk sha256 keys epoch anchor walk rows).headHash = ev.hash := by
  induction rows generalizing walk with
  | nil => exact absurd trivial rejected
  | cons ev rows ih =>
  by_cases bad : (verifyStep sha256 keys epoch anchor walk ev).firstBadSeq = 0
  · have restRejected : ¬Accepts sha256 keys epoch ev.hash
        (walk.sawKeyed || !ev.isUnkeyed) rows := by
      intro rest
      apply rejected
      refine ⟨?_, rest⟩
      have stepValue : (verifyStep sha256 keys epoch anchor walk ev).firstBadSeq =
          if rowFails sha256 keys epoch walk.prev walk.sawKeyed ev then ev.seq else 0 := by
        simp [verifyStep, clean]
      rw [stepValue] at bad
      split at bad
      · exact .inl bad
      · rename_i passes
        exact .inr (by simpa using passes)
    obtain ⟨before, failing, after, split, fails, head⟩ := ih bad restRejected
    refine ⟨ev :: before, failing, after, by rw [split, List.cons_append], ?_, ?_⟩
    · rw [tip_cons, List.any_cons, ← Bool.or_assoc]
      exact fails
    · rw [verifyWalk]
      simp only [bad, ne_eq, not_true_eq_false, if_false]
      exact head
  · refine ⟨[], ev, rows, rfl, ?_, ?_⟩
    · by_contra passes
      apply bad
      simp only [tip_nil, List.any_nil, Bool.or_false, Bool.not_eq_true] at passes
      simp [verifyStep, clean, passes]
    · rw [verifyWalk]
      simp only [ne_eq, bad, not_false_eq_true, if_true]
      rfl

end OmegaPlane.Audit
