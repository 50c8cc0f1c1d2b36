import OmegaPlane.Storage.Runs

/-!
# Truncation anchors

A report of the chain is published and later passed back as an anchor.  In
between the store goes on and rows may be deleted.  A trace carries every row
ever written, so that rows are comparable across deletions; the anchored walk
is valid exactly when the anchored rows still open the chain and the rest links
up.
-/

namespace OmegaPlane.Storage

open Audit Chain

variable {σ : Type} {sha256 : Bytes → Bytes}

/-! ## Deletions -/

/-- Keep the rows that satisfy a condition; numbers are not given out again. -/
def AuditTable.keepRows (table : AuditTable) (keep : AuditEvent → Bool) : AuditTable where
  rows := table.rows.filter keep
  ordered := table.ordered.sublist List.filter_sublist
  nextSeq := table.nextSeq
  started := table.started
  assigned row member := table.assigned row (List.mem_filter.mp member).1

/-- Delete the rows that do not satisfy a condition. -/
def Store.deleteRows (s : Store σ) (keep : AuditEvent → Bool) : Store σ :=
  { s with db := { s.db with auditLog := s.db.auditLog.keepRows keep } }

/-- A store with every row ever written to its chain. -/
structure Traced (σ : Type) where
  store : Store σ
  written : List AuditEvent

/-- The rows of the chain now. -/
abbrev Traced.rows (trace : Traced σ) : List AuditEvent :=
  trace.store.db.auditLog.rows

/-- A step of the store or a deletion of rows. -/
inductive TracedStep (sha256 : Bytes → Bytes) : Traced σ → Traced σ → Prop where
  | store {s s' : Store σ} (written : List AuditEvent) (step : Step sha256 s s') :
      TracedStep sha256 ⟨s, written⟩ ⟨s', written ++ s'.db.auditLog.rows⟩
  | delete (s : Store σ) (written : List AuditEvent) (keep : AuditEvent → Bool) :
      TracedStep sha256 ⟨s, written⟩ ⟨s.deleteRows keep, written⟩

/-- The traces from a fresh database on. -/
def TraceReachable (sha256 : Bytes → Bytes) (trace : Traced σ) : Prop :=
  ∃ driver provisioned leader keyring,
    Relation.ReflTransGen (TracedStep sha256)
      ⟨Store.opened driver provisioned leader keyring, []⟩ trace

/-! ## What deletions leave intact -/

variable {s s' : Store σ} {written : List AuditEvent} {trace trace' : Traced σ}

theorem RowsInvariant.deleteRows (invariant : RowsInvariant sha256 s) (keep : AuditEvent → Bool) :
    RowsInvariant sha256 (s.deleteRows keep) where
  authentic ev member := invariant.authentic ev (List.mem_filter.mp member).1
  contiguous := invariant.contiguous.sublist List.filter_sublist
  beforeEpoch ev member := invariant.beforeEpoch ev (List.mem_filter.mp member).1
  unkeyed noKeyring :=
    ⟨(invariant.unkeyed noKeyring).1, fun ev member =>
      (invariant.unkeyed noKeyring).2 ev (List.mem_filter.mp member).1⟩

/-- What holds along a trace.  A row with a present row below it links to a
written row that is not below that one: the last row at its writing. -/
structure TraceInvariant (sha256 : Bytes → Bytes) (trace : Traced σ) : Prop where
  rows : RowsInvariant sha256 trace.store
  present : ∀ row ∈ trace.rows, row ∈ trace.written
  notGenesis : ∀ row ∈ trace.written, row.hash ≠ genesisHash
  placed : ∀ row ∈ trace.rows, ∀ below ∈ trace.rows, below.seq < row.seq →
    ∃ previous ∈ trace.written, row.prevHash = previous.hash ∧ below.seq ≤ previous.seq

/-- The rows of the chain after a step: some of those before and perhaps one
new row that links to the last of them. -/
theorem Step.rows_cases (step : Step sha256 s s') :
    s'.db.auditLog = s.db.auditLog ∨
      ∃ ev, s'.db.auditLog.rows = s.db.auditLog.rows ++ [ev] ∧
        ev.prevHash = tip AuditEvent.hash genesisHash s.db.auditLog.rows ∧
        s.db.auditLog.nextSeq ≤ ev.seq ∧ s'.db.auditLog.nextSeq = ev.seq + 1 := by
  rcases step.cases with ⟨-, effect⟩ | ⟨db, -, -⟩
  · cases effect with
    | kept audit => exact .inl audit.auditLog
    | appended call draft ev writes =>
      have seqEq := writes.seq
      refine .inr ⟨ev, writes.rows, writes.prevHash, ?_, ?_⟩
      · omega
      · rw [writes.nextSeq, seqEq]
  · rw [db]
    exact .inl rfl

/-- No row is ever changed or removed, and no sequence number is given twice. -/
theorem append_only :
    Relation.ReflTransGen (@Step σ sha256) ≤ fun s s' => ∃ new,
      s'.db.auditLog.rows = s.db.auditLog.rows ++ new ∧
      s.db.auditLog.nextSeq ≤ s'.db.auditLog.nextSeq ∧
      ∀ ev ∈ new, s.db.auditLog.nextSeq ≤ ev.seq := by
  intro s s' steps
  induction steps with
  | refl => exact ⟨[], by simp⟩
  | tail _ step ih =>
    obtain ⟨new, rows, more, above⟩ := ih
    rcases step.rows_cases with same | ⟨ev, added, -, fresh, next⟩
    · rw [same]
      exact ⟨new, rows, more, above⟩
    · refine ⟨new ++ [ev], by rw [added, rows, List.append_assoc], by omega, ?_⟩
      simpa [or_imp, forall_and] using ⟨above, more.trans fresh⟩

theorem TraceInvariant.store (invariant : TraceInvariant sha256 ⟨s, written⟩)
    (step : Step sha256 s s') :
    TraceInvariant sha256 ⟨s', written ++ s'.db.auditLog.rows⟩ := by
  have rows := invariant.rows.step step
  constructor
  · exact rows
  · exact fun row member => List.mem_append_right _ member
  · intro row member
    rcases List.mem_append.mp member with old | new
    · exact invariant.notGenesis row old
    · exact (rows.authentic row new).hash_ne
  · intro row member below belowMember less
    rcases step.rows_cases with same | ⟨ev, rowsEq, linkEq, bound, -⟩
    · rw [Traced.rows, same] at member belowMember
      obtain ⟨previous, previousMember, link, order⟩ :=
        invariant.placed row member below belowMember less
      exact ⟨previous, List.mem_append_left _ previousMember, link, order⟩
    · rw [Traced.rows, rowsEq] at member belowMember
      have oldBound : ∀ old ∈ s.db.auditLog.rows, old.seq < ev.seq := by
        intro old oldMember
        have assigned := (s.db.auditLog.assigned old oldMember).2
        omega
      rcases List.mem_append.mp member with old | new
      · -- an old row: the new one is not below it
        rcases List.mem_append.mp belowMember with belowOld | belowNew
        · obtain ⟨previous, previousMember, link, order⟩ :=
            invariant.placed row old below belowOld less
          exact ⟨previous, List.mem_append_left _ previousMember, link, order⟩
        · rw [List.mem_singleton.mp belowNew] at less
          exact absurd less (lt_asymm (oldBound row old))
      · -- the new row links to the last old one
        rw [List.mem_singleton.mp new] at less ⊢
        rcases List.mem_append.mp belowMember with belowOld | belowNew
        · rcases List.eq_nil_or_concat s.db.auditLog.rows with empty | ⟨init, last, split⟩
          · rw [empty] at belowOld
            simp at belowOld
          · rw [List.concat_eq_append] at split
            have lastMember : last ∈ s.db.auditLog.rows := by simp [split]
            refine ⟨last, List.mem_append_left _ (invariant.present last lastMember), ?_, ?_⟩
            · rw [linkEq, split, tip_concat]
            have wholeSplit : s.db.auditLog.rows = (init ++ [last]) ++ [] := by simpa using split
            rw [split] at belowOld
            rcases AuditLog.seq_le_last s.db.auditLog.toAuditLog wholeSplit belowOld with
              rfl | lower
            · exact le_refl _
            · exact lower.le
        · rw [List.mem_singleton.mp belowNew] at less
          exact absurd less (lt_irrefl _)

theorem TraceInvariant.delete (invariant : TraceInvariant sha256 ⟨s, written⟩)
    (keep : AuditEvent → Bool) :
    TraceInvariant sha256 ⟨s.deleteRows keep, written⟩ where
  rows := invariant.rows.deleteRows keep
  present row member := invariant.present row (List.mem_filter.mp member).1
  notGenesis := invariant.notGenesis
  placed row member below belowMember :=
    invariant.placed row (List.mem_filter.mp member).1 below (List.mem_filter.mp belowMember).1

theorem TraceInvariant.step (invariant : TraceInvariant sha256 trace)
    (step : TracedStep sha256 trace trace') : TraceInvariant sha256 trace' := by
  cases step with
  | store written step => exact invariant.store step
  | delete s written keep => exact invariant.delete keep

theorem TraceInvariant.run (invariant : TraceInvariant sha256 trace)
    (run : Relation.ReflTransGen (TracedStep sha256) trace trace') :
    TraceInvariant sha256 trace' := by
  induction run with
  | refl => exact invariant
  | tail _ step ih => exact ih.step step

theorem TraceReachable.invariant (reachable : TraceReachable sha256 trace) :
    TraceInvariant sha256 trace := by
  obtain ⟨driver, provisioned, leader, keyring, run⟩ := reachable
  apply TraceInvariant.run _ run
  constructor
  · exact (chainInvariant_opened driver provisioned leader keyring).rows
  · simp [Traced.rows, Store.opened, Db.empty, AuditTable.empty]
  · simp
  · simp [Traced.rows, Store.opened, Db.empty, AuditTable.empty]

/-! ## Between two moments -/

/-- Rows are not inserted below the numbers given out already, and what was
written stays written. -/
theorem trace_kept {early late : Traced σ}
    (run : Relation.ReflTransGen (TracedStep sha256) early late) :
    early.store.db.auditLog.nextSeq ≤ late.store.db.auditLog.nextSeq ∧
      (∀ row ∈ late.rows, row.seq < early.store.db.auditLog.nextSeq → row ∈ early.rows) ∧
      ∀ row ∈ early.written, row ∈ late.written := by
  induction run with
  | refl => exact ⟨le_refl _, fun row member _ => member, fun row member => member⟩
  | tail _ step ih =>
  obtain ⟨order, below, written⟩ := ih
  cases step with
  | delete => exact ⟨order, fun row member => below row (List.mem_filter.mp member).1, written⟩
  | store w step =>
  refine ⟨?_, ?_, fun row member => List.mem_append_left _ (written row member)⟩
  · rcases step.rows_cases with same | ⟨ev, -, -, bound, nextEq⟩
    · simp only [same]
      exact order
    · simp only [nextEq] at order ⊢
      omega
  · intro row member less
    rcases step.rows_cases with same | ⟨ev, rowsEq, -, bound, -⟩
    · rw [Traced.rows, same] at member
      exact below row member less
    · rw [Traced.rows, rowsEq] at member
      rcases List.mem_append.mp member with old | new
      · exact below row old less
      · rw [List.mem_singleton.mp new] at less
        simp only at order
        omega

/-- Hashes of distinct rows differ. -/
def HashesDistinct (rows : List AuditEvent) : Prop :=
  ∀ first ∈ rows, ∀ second ∈ rows, first.hash = second.hash → first = second

/-! ## The report at the earlier moment -/

theorem valid_iff_linked (invariant : RowsInvariant sha256 s) :
    (verifyAudit sha256 s none).valid = true ↔ LinkInvariant s := by
  rw [verifyAudit, verifyRows_none_valid_iff]
  exact invariant.accepts_iff_linked

/-- A valid report names the tip and the number of the rows. -/
theorem anchor_of_linked (invariant : RowsInvariant sha256 s) (linked : LinkInvariant s) :
    (verifyAudit sha256 s none).anchor =
      ⟨tip AuditEvent.hash genesisHash s.db.auditLog.rows, s.db.auditLog.rows.length⟩ := by
  rw [verifyAudit, verifyRows_of_accepts (invariant.accepts_iff_linked.mpr linked)]
  rfl

/-- An invalid report names the hash of a row that does not link to the row
before it. -/
theorem anchor_of_unlinked (invariant : RowsInvariant sha256 s) (unlinked : ¬LinkInvariant s) :
    ∃ before row after, s.db.auditLog.rows = before ++ row :: after ∧
      row.prevHash ≠ tip AuditEvent.hash genesisHash before ∧
      (verifyAudit sha256 s none).anchor.headHash = row.hash := by
  have rejected : ¬Accepts sha256 s.keySnap s.readEpoch genesisHash false
      s.db.auditLog.rows := fun accepted => unlinked (invariant.accepts_iff_linked.mp accepted)
  have started : (startWalk none).firstBadSeq = 0 := rfl
  obtain ⟨before, row, after, split, fails, head⟩ :=
    @verifyWalk_of_rejected sha256 s.keySnap s.readEpoch none (startWalk none) _ started rejected
  refine ⟨before, row, after, split, ?_, head⟩
  intro link
  have member : row ∈ s.db.auditLog.rows := by simp [split]
  have passes : rowFails sha256 s.keySnap s.readEpoch
      (tip AuditEvent.hash genesisHash before)
      (false || before.any fun earlier => !earlier.isUnkeyed) row = false := by
    refine rowFails_eq_false_iff.mpr ⟨link, invariant.authentic row member,
      fun loaded => invariant.noDowngrade.beforeEpoch loaded row member, ?_⟩
    intro _ seen
    obtain ⟨earlier, earlierMember, keyed⟩ : ∃ earlier ∈ before, earlier.isUnkeyed = false := by
      simpa using seen
    have contiguous := invariant.contiguous
    rw [split] at contiguous
    exact (List.pairwise_append.mp contiguous).2.2 earlier earlierMember row (by simp) keyed
  have failsHere : rowFails sha256 s.keySnap s.readEpoch
      (tip AuditEvent.hash genesisHash before)
      (false || before.any fun earlier => !earlier.isUnkeyed) row = true := fails
  rw [passes] at failsHere
  contradiction

/-! ## The anchored walk at the later moment -/

section Later

variable {early late : Traced σ}

/-- A row that did not link to the row before it never stands in a linked chain
later: the row it links to is gone for good. -/
theorem unlinked_row_absent (earlyInvariant : TraceInvariant sha256 early)
    (lateInvariant : TraceInvariant sha256 late)
    (run : Relation.ReflTransGen (TracedStep sha256) early late)
    (distinct : HashesDistinct late.written) {before after : List AuditEvent} {row : AuditEvent}
    (split : early.rows = before ++ row :: after)
    (unlinked : row.prevHash ≠ tip AuditEvent.hash genesisHash before)
    (linked : LinkInvariant late.store) : row ∉ late.rows := by
  intro member
  obtain ⟨-, kept, written⟩ := trace_kept run
  have rowEarly : row ∈ early.rows := by simp [split]
  obtain ⟨before', after', split'⟩ := List.append_of_mem member
  have linkNow : row.prevHash = tip AuditEvent.hash genesisHash before' := by
    have linkedRows : Linked AuditEvent.hash AuditEvent.prevHash genesisHash late.rows := linked
    rw [split', linked_append] at linkedRows
    exact linkedRows.2.1
  -- what stands before the row now stood before it then
  have beforeKept : ∀ earlier ∈ before', earlier ∈ before := by
    intro earlier earlierMember
    have less := AuditLog.seq_lt_of_before late.store.db.auditLog.toAuditLog split' earlierMember
    have earlierLate : earlier ∈ late.rows := by simp [split', earlierMember]
    have bound := less.trans (early.store.db.auditLog.assigned row rowEarly).2
    exact AuditLog.mem_before early.store.db.auditLog.toAuditLog split
      (kept earlier earlierLate bound) less
  rcases List.eq_nil_or_concat before with rfl | ⟨init, last, lastSplit⟩
  · have empty : before' = [] := List.eq_nil_iff_forall_not_mem.mpr fun earlier earlierMember =>
      absurd (beforeKept earlier earlierMember) (by simp)
    rw [empty] at linkNow
    exact unlinked linkNow
  · rw [List.concat_eq_append] at lastSplit
    have lastMember : last ∈ early.rows := by simp [split, lastSplit]
    have lastLess : last.seq < row.seq :=
      AuditLog.seq_lt_of_before early.store.db.auditLog.toAuditLog split (by simp [lastSplit])
    obtain ⟨previous, previousWritten, link, order⟩ :=
      earlyInvariant.placed row rowEarly last lastMember lastLess
    rcases List.eq_nil_or_concat before' with rfl | ⟨init', last', lastSplit'⟩
    · rw [tip_nil, link] at linkNow
      exact earlyInvariant.notGenesis previous previousWritten linkNow
    rw [List.concat_eq_append] at lastSplit'
    rw [lastSplit', tip_concat, link] at linkNow
    have lastLate : last' ∈ late.rows := by simp [split', lastSplit']
    obtain rfl : previous = last' :=
      distinct previous (written previous previousWritten) last'
        (lateInvariant.present last' lastLate) linkNow
    -- so the row linked to the row before it after all
    have inBefore : previous ∈ before := beforeKept previous (by simp [lastSplit'])
    have isLast : previous = last := by
      rw [lastSplit] at inBefore split
      rcases AuditLog.seq_le_last early.store.db.auditLog.toAuditLog split inBefore with
        same | less
      · exact same
      · exact absurd less (not_lt.mpr order)
    rw [lastSplit, tip_concat, link, isLast] at unlinked
    exact unlinked rfl

/-- The anchored rows open a later linked chain that still holds their last
row. -/
theorem prefix_of_head_present (earlyInvariant : TraceInvariant sha256 early)
    (lateInvariant : TraceInvariant sha256 late)
    (run : Relation.ReflTransGen (TracedStep sha256) early late)
    (distinct : HashesDistinct late.written) (earlyLinked : LinkInvariant early.store)
    (lateLinked : LinkInvariant late.store)
    (seen : tip AuditEvent.hash genesisHash early.rows = genesisHash ∨
      ∃ row ∈ late.rows, row.hash = tip AuditEvent.hash genesisHash early.rows) :
    early.rows <+: late.rows := by
  obtain ⟨-, -, written⟩ := trace_kept run
  have earlyWritten : ∀ row ∈ early.rows, row ∈ late.written := fun row member =>
    written row (earlyInvariant.present row member)
  have earlyFresh : ∀ row ∈ early.rows, row.hash ≠ genesisHash := fun row member =>
    (earlyInvariant.rows.authentic row member).hash_ne
  have lateFresh : ∀ row ∈ late.rows, row.hash ≠ genesisHash := fun row member =>
    (lateInvariant.rows.authentic row member).hash_ne
  rcases seen with genesis | ⟨row, member, head⟩
  · -- an anchor at the genesis hash anchors the empty chain
    rcases List.eq_nil_or_concat early.rows with empty | ⟨init, last, split⟩
    · rw [empty]
      exact List.nil_prefix
    · rw [List.concat_eq_append] at split
      rw [split, tip_concat] at genesis
      exact absurd genesis (earlyFresh last (by simp [split]))
  · exact prefix_of_tip_mem
      (fun first firstMember second secondMember =>
        distinct first (earlyWritten first firstMember) second
          (lateInvariant.present second secondMember))
      earlyFresh lateFresh earlyLinked lateLinked member head.symm

/-- Against the anchor of a linked chain, a later chain is linked, long enough
and holds the anchored head exactly when the anchored rows open it and the rest
links up. -/
theorem anchored_iff_of_linked (earlyInvariant : TraceInvariant sha256 early)
    (lateInvariant : TraceInvariant sha256 late)
    (run : Relation.ReflTransGen (TracedStep sha256) early late)
    (distinct : HashesDistinct late.written) (earlyLinked : LinkInvariant early.store) :
    (LinkInvariant late.store ∧ (early.rows.length : Int) ≤ late.rows.length ∧
        (tip AuditEvent.hash genesisHash early.rows = genesisHash ∨
          ∃ row ∈ late.rows, row.hash = tip AuditEvent.hash genesisHash early.rows)) ↔
      late.rows.take early.rows.length = early.rows ∧
        Linked AuditEvent.hash AuditEvent.prevHash (tip AuditEvent.hash genesisHash early.rows)
          (late.rows.drop early.rows.length) := by
  have linkedRows : LinkInvariant late.store ↔
      Linked AuditEvent.hash AuditEvent.prevHash genesisHash late.rows := Iff.rfl
  constructor
  · rintro ⟨lateLinked, -, seen⟩
    obtain ⟨rest, split⟩ := prefix_of_head_present earlyInvariant lateInvariant run distinct
      earlyLinked lateLinked seen
    rw [linkedRows, ← split, linked_append] at lateLinked
    rw [← split, List.take_left, List.drop_left]
    exact ⟨rfl, lateLinked.2⟩
  · rintro ⟨opens, restLinked⟩
    have split : late.rows = early.rows ++ late.rows.drop early.rows.length := by
      conv_lhs => rw [← List.take_append_drop early.rows.length late.rows, opens]
    refine ⟨?_, ?_, ?_⟩
    · rw [linkedRows, split, linked_append]
      exact ⟨earlyLinked, restLinked⟩
    · rw [split]
      simp
    rcases List.eq_nil_or_concat early.rows with empty | ⟨init, last, lastSplit⟩
    · rw [empty]
      exact .inl rfl
    · rw [List.concat_eq_append] at lastSplit
      refine .inr ⟨last, ?_, ?_⟩
      · rw [split, lastSplit]
        simp
      · rw [lastSplit, tip_concat]

/-- Truncation anchors are exact.  The report of an earlier moment, passed back
as an anchor after any store steps and deletions, is accepted if and only if it
was a valid report, the chain still opens with the anchored rows and the rest
links up; otherwise a failing row or a truncation is reported.  As long as only
the store has touched the chain, the earlier report is valid. -/
theorem anchored_valid_iff (before : TraceReachable sha256 early)
    (after : Relation.ReflTransGen (TracedStep sha256) early late)
    (distinct : HashesDistinct late.written) :
    ((verifyAudit sha256 late.store (some (verifyAudit sha256 early.store none).anchor)).valid =
        true ↔
      (verifyAudit sha256 early.store none).valid = true ∧
        late.rows.take (verifyAudit sha256 early.store none).count.toNat = early.rows ∧
        Linked AuditEvent.hash AuditEvent.prevHash (verifyAudit sha256 early.store none).headHash
          (late.rows.drop (verifyAudit sha256 early.store none).count.toNat)) ∧
    ((verifyAudit sha256 late.store (some (verifyAudit sha256 early.store none).anchor)).valid =
        false →
      (verifyAudit sha256 late.store
          (some (verifyAudit sha256 early.store none).anchor)).firstBadSeq ≠ 0 ∨
        (verifyAudit sha256 late.store
          (some (verifyAudit sha256 early.store none).anchor)).truncated = true) ∧
    (Reachable sha256 early.store → (verifyAudit sha256 early.store none).valid = true) := by
  have earlyInvariant := before.invariant
  have lateInvariant := earlyInvariant.run after
  refine ⟨?_, verifyRows_invalid, fun reachable =>
    (valid_iff_linked earlyInvariant.rows).mpr reachable.chainInvariant.linked⟩
  rw [valid_iff_linked earlyInvariant.rows]
  have lateValid : (verifyAudit sha256 late.store
      (some (verifyAudit sha256 early.store none).anchor)).valid = true ↔
      LinkInvariant late.store ∧
        (verifyAudit sha256 early.store none).anchor.count ≤ late.rows.length ∧
        ((verifyAudit sha256 early.store none).anchor.headHash = genesisHash ∨
          ∃ row ∈ late.rows, row.hash =
            (verifyAudit sha256 early.store none).anchor.headHash) := by
    rw [← lateInvariant.rows.accepts_iff_linked]
    exact verifyRows_some_valid_iff
  rw [lateValid]
  by_cases earlyLinked : LinkInvariant early.store
  · have anchorEq : (verifyAudit sha256 early.store none).anchor =
        ⟨tip AuditEvent.hash genesisHash early.rows, early.rows.length⟩ :=
      anchor_of_linked earlyInvariant.rows earlyLinked
    have headEq : (verifyAudit sha256 early.store none).headHash =
        tip AuditEvent.hash genesisHash early.rows := congrArg AuditAnchor.headHash anchorEq
    have countEq : (verifyAudit sha256 early.store none).count = early.rows.length :=
      congrArg AuditAnchor.count anchorEq
    rw [anchorEq, headEq, countEq, Int.toNat_natCast]
    have opened := anchored_iff_of_linked earlyInvariant lateInvariant after distinct earlyLinked
    exact opened.trans ⟨fun stands => ⟨earlyLinked, stands⟩, fun stands => stands.2⟩
  · -- the anchor is the hash of a row that never links up again
    obtain ⟨front, row, back, split, unlinked, headEq⟩ :=
      anchor_of_unlinked earlyInvariant.rows earlyLinked
    have rowMember : row ∈ early.rows := by simp [Traced.rows, split]
    constructor
    · rintro ⟨lateLinked, -, seen⟩
      rw [headEq] at seen
      rcases seen with genesis | ⟨other, member, sameHash⟩
      · exact absurd genesis (earlyInvariant.rows.authentic row rowMember).hash_ne
      have written := (trace_kept after).2.2 row (earlyInvariant.present row rowMember)
      obtain rfl : other = row :=
        distinct other (lateInvariant.present other member) row written sameHash
      exact absurd member (unlinked_row_absent earlyInvariant lateInvariant after distinct
        split unlinked lateLinked)
    · exact fun stands => absurd stands.1 earlyLinked

end Later

/-- A chain of one row. -/
def anchoredStore : Store Unit :=
  (appendAudit Crypto.Sha256.sum (Store.opened .sqlite () ⟨false, false⟩ none) (.clean 1)
    { kind := ascii "svid.issue" }).1

/-- Deleting the only row is reported. -/
theorem anchored_valid_iff_anchoredStore :
    (verifyAudit Crypto.Sha256.sum (anchoredStore.deleteRows fun _ => false)
      (some (verifyAudit Crypto.Sha256.sum anchoredStore none).anchor)).valid = false ∧
    ((verifyAudit Crypto.Sha256.sum (anchoredStore.deleteRows fun _ => false)
        (some (verifyAudit Crypto.Sha256.sum anchoredStore none).anchor)).firstBadSeq ≠ 0 ∨
      (verifyAudit Crypto.Sha256.sum (anchoredStore.deleteRows fun _ => false)
        (some (verifyAudit Crypto.Sha256.sum anchoredStore none).anchor)).truncated = true) := by
  obtain ⟨row, single⟩ : ∃ row, anchoredStore.db.auditLog.rows = [row] := ⟨_, rfl⟩
  have before : TraceReachable Crypto.Sha256.sum
      ⟨anchoredStore, [] ++ anchoredStore.db.auditLog.rows⟩ :=
    ⟨.sqlite, (), ⟨false, false⟩, none,
      Relation.ReflTransGen.single (.store [] (.operate (.append _ (.clean 1) _)))⟩
  have distinct : HashesDistinct ([] ++ anchoredStore.db.auditLog.rows) := by
    rw [single]
    simp [HashesDistinct]
  obtain ⟨exactly, reported, -⟩ := anchored_valid_iff before
    (Relation.ReflTransGen.single (.delete anchoredStore _ fun _ => false)) distinct
  have invalid : (verifyAudit Crypto.Sha256.sum (anchoredStore.deleteRows fun _ => false)
      (some (verifyAudit Crypto.Sha256.sum anchoredStore none).anchor)).valid = false := by
    rw [← Bool.not_eq_true, exactly]
    rintro ⟨-, opens, -⟩
    simp [Traced.rows, Store.deleteRows, AuditTable.keepRows, single] at opens
  exact ⟨invalid, reported invalid⟩

end OmegaPlane.Storage
