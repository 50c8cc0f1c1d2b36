import OmegaPlane.Crypto.Sha256
import OmegaPlane.Storage.Effect

/-!
# Runs of once-per-key appends

A run of `AppendAuditOnce` calls with the record each call leaves: its result
and the rows it added.  As long as every call for a key comes within the
retention of the first event committed under it, that event is in the chain
once, a resend adds nothing, and a different event adds one conflict row.
-/

namespace OmegaPlane.Storage

open Audit Chain Transaction

variable {σ : Type} {sha256 : Bytes → Bytes} {s : Store σ} {call : Call} {row : OnceRow}

/-! ## One call -/

/-- All a call can do. -/
inductive OnceCases (sha256 : Bytes → Bytes) (s : Store σ) (call : Call) (key : Bytes)
    (draft : AuditDraft) (s' : Store σ) (result : Except StoreError Bool) : Prop where
  | nothing (rows : s'.db.auditLog.rows = s.db.auditLog.rows)
      (once : s'.db.auditOnce = s.db.auditOnce)
      (result : (∃ err, result = .error err) ∨
        result = .ok false ∧ ∃ row, s.db.auditOnce.lookup key = some row ∧
          row.digest = eventDigest sha256 draft)
  | event (ev : AuditEvent) (free : s.db.auditOnce.lookup key = none)
      (writes : WritesRow sha256 s call draft s.db ev s'.db)
      (kept : ∀ name row,
        (s.db.auditOnce.insert ⟨key, eventDigest sha256 draft, call.now⟩).2.lookup name =
            some row →
          call.now - auditOnceRetention ≤ row.createdAt →
          s'.db.auditOnce.lookup name = some row)
      (absent : ∀ name,
        (s.db.auditOnce.insert ⟨key, eventDigest sha256 draft, call.now⟩).2.lookup name =
            none →
          s'.db.auditOnce.lookup name = none)
      (result : result = .ok true ∨
        call.faults.commit = .unacknowledged ∧ ∃ err, result = .error err)
  | conflict (ev : AuditEvent) (row : OnceRow) (taken : s.db.auditOnce.lookup key = some row)
      (different : row.digest ≠ eventDigest sha256 draft)
      (writes : WritesRow sha256 s call
        (conflictDraft key row.digest (eventDigest sha256 draft) draft) s.db ev s'.db)
      (once : s'.db.auditOnce = s.db.auditOnce)
      (result : result = .ok false ∨ ∃ err, result = .error err)

variable {name : Bytes}

theorem pruneOnce_lookup (found : s.db.auditOnce.lookup name = some row)
    (recent : call.now - auditOnceRetention ≤ row.createdAt) :
    (pruneOnce s call).db.auditOnce.lookup name = some row := by
  unfold pruneOnce
  split
  · simp only
    split
    · simp only [Table.lookup_filter, found]
      simp [Option.filter, recent]
    · exact found
  · exact found

theorem pruneOnce_lookup_none (absent : s.db.auditOnce.lookup name = none) :
    (pruneOnce s call).db.auditOnce.lookup name = none := by
  unfold pruneOnce
  split
  · simp only
    split
    · simp only [Table.lookup_filter, absent]
      rfl
    · exact absent
  · exact absent

theorem pruneOnce_found (found : (pruneOnce s call).db.auditOnce.lookup name = some row) :
    s.db.auditOnce.lookup name = some row := by
  cases present : s.db.auditOnce.lookup name with
  | none =>
    rw [pruneOnce_lookup_none present] at found
    contradiction
  | some =>
  unfold pruneOnce at found
  split at found
  · simp only at found
    split at found
    · simp only [Table.lookup_filter, present, Option.filter] at found
      split at found
      · exact found
      · contradiction
    · exact present.symm.trans found
  · exact present.symm.trans found

theorem appendAuditOnce_cases (s : Store σ) (call : Call) (key : Bytes) (draft : AuditDraft) :
    OnceCases sha256 s call key draft (appendAuditOnce sha256 s call key draft).1
      (appendAuditOnce sha256 s call key draft).2 := by
  unfold appendAuditOnce
  split
  · exact .nothing rfl rfl (.inl ⟨_, rfl⟩)
  split
  · exact .nothing rfl rfl (.inl ⟨_, rfl⟩)
  rcases transact_cases (.failed "audit: begin tx") (.failed "audit: commit") call.faults
      (appendOnceTx_yields s call key draft s.db) with
    ⟨err, ran⟩ | ⟨appended, after, effect, ran⟩ | ⟨appended, after, effect, ran⟩
  · rw [ran]
    exact .nothing rfl rfl (.inl ⟨err, rfl⟩)
  · rw [ran]
    cases effect with
    | repeated row taken same => exact .nothing rfl rfl (.inr ⟨rfl, row, taken, same⟩)
  · cases effect with
    | recorded ev free writes once =>
      rcases ran with ⟨-, ran⟩ | ⟨lost, ran⟩
      · rw [ran]
        refine .event ev free ?_ ?_ ?_ (.inl rfl)
        · constructor
          · exact writes.row
          · simpa using writes.rows
          · simpa using writes.nextSeq
          · simpa using writes.keyedFromSeq
        · intro name row found recent
          apply pruneOnce_lookup _ recent
          rw [auditCommitted_db]
          simpa only [once] using found
        · intro name absent
          apply pruneOnce_lookup_none
          rw [auditCommitted_db]
          simpa only [once] using absent
      · rw [ran]
        refine .event ev free writes ?_ ?_ (.inr ⟨lost, _, rfl⟩)
        · intro name row found _
          simpa only [once] using found
        · intro name absent
          simpa only [once] using absent
    | conflicting row ev taken different writes keeps =>
      rcases ran with ⟨-, ran⟩ | ⟨-, ran⟩
      · rw [ran]
        refine .conflict ev row taken different ?_ ?_ (.inl rfl)
        · rw [auditCommitted_db]
          exact writes
        · rw [auditCommitted_db]
          exact keeps.auditOnce
      · rw [ran]
        exact .conflict ev row taken different writes keeps.auditOnce (.inr ⟨_, rfl⟩)

variable {key : Bytes} {draft : AuditDraft}

/-- A key found after a call was there before, or is the one the call
recorded. -/
theorem appendAuditOnce_found
    (found : (appendAuditOnce sha256 s call key draft).1.db.auditOnce.lookup name = some row) :
    s.db.auditOnce.lookup name = some row ∨
      name = key ∧ row = ⟨key, eventDigest sha256 draft, call.now⟩ := by
  -- what a recorded event leaves, before the table is pruned
  have inserted : ∀ {after : Db σ}, s.db.auditOnce.lookup key = none →
      after.auditOnce = (s.db.auditOnce.insert ⟨key, eventDigest sha256 draft, call.now⟩).2 →
      after.auditOnce.lookup name = some row → s.db.auditOnce.lookup name = some row ∨
        name = key ∧ row = ⟨key, eventDigest sha256 draft, call.now⟩ := by
    intro after free once present
    rw [once, Table.lookup_insert_of_none free] at present
    split at present
    · rename_i same
      exact .inr ⟨same.symm, (Option.some.inj present).symm⟩
    · exact .inl present
  unfold appendAuditOnce at found
  split at found
  · exact .inl found
  split at found
  · exact .inl found
  rcases transact_cases (.failed "audit: begin tx") (.failed "audit: commit") call.faults
      (appendOnceTx_yields s call key draft s.db) with
    ⟨err, ran⟩ | ⟨appended, after, effect, ran⟩ | ⟨appended, after, effect, ran⟩
  · rw [ran] at found
    exact .inl found
  · rw [ran] at found
    exact .inl found
  cases effect with
  | recorded ev free writes once =>
    rcases ran with ⟨-, ran⟩ | ⟨-, ran⟩
    · rw [ran] at found
      have present := pruneOnce_found found
      rw [auditCommitted_db] at present
      exact inserted free once present
    · rw [ran] at found
      exact inserted free once found
  | conflicting row ev taken different writes keeps =>
    rcases ran with ⟨-, ran⟩ | ⟨-, ran⟩
    · rw [ran] at found
      simp only [auditCommitted_db, keeps.auditOnce] at found
      exact .inl found
    · rw [ran] at found
      simp only [keeps.auditOnce] at found
      exact .inl found

/-! ## Runs -/

/-- A call with its result and the rows it added. -/
structure OnceRecord where
  call : Call
  key : Bytes
  draft : AuditDraft
  result : Except StoreError Bool
  added : List AuditEvent

/-- The record a call leaves on a store. -/
def onceRecord (sha256 : Bytes → Bytes) (s : Store σ) (call : Call) (key : Bytes)
    (draft : AuditDraft) : OnceRecord where
  call := call
  key := key
  draft := draft
  result := (appendAuditOnce sha256 s call key draft).2
  added := (appendAuditOnce sha256 s call key draft).1.db.auditLog.rows.drop
    s.db.auditLog.rows.length

/-- A run of calls with their records; between calls the process may restart or
change what it keeps in memory. -/
inductive OnceRun (sha256 : Bytes → Bytes) (start : Store σ) :
    List OnceRecord → Store σ → Prop where
  | start : OnceRun sha256 start [] start
  | call {records : List OnceRecord} {s : Store σ} (run : OnceRun sha256 start records s)
      (call : Call) (key : Bytes) (draft : AuditDraft) :
      OnceRun sha256 start (records ++ [onceRecord sha256 s call key draft])
        (appendAuditOnce sha256 s call key draft).1
  | between {records : List OnceRecord} {s s' : Store σ} (run : OnceRun sha256 start records s)
      (db : s'.db = s.db) : OnceRun sha256 start records s'

/-- The first call that committed under a key. -/
def firstCommitted (records : List OnceRecord) (key : Bytes) : Option OnceRecord :=
  records.find? fun record => record.key = key && !record.added.isEmpty

/-- Up to every later call for a key, the clock has not passed the retention of
the first commit under it. -/
def WithinRetention (records : List OnceRecord) : Prop :=
  ∀ front first middle record back, records = front ++ first :: middle ++ record :: back →
    firstCommitted front first.key = none → first.added ≠ [] → record.key = first.key →
    ∀ other ∈ middle ++ [record], other.call.now ≤ first.call.now + auditOnceRetention

/-- A row carries the columns of a draft. -/
def Carries (draft : AuditDraft) (ev : AuditEvent) : Prop :=
  ev.kind = draft.kind ∧ ev.actor = draft.actor ∧ ev.subject = draft.subject ∧
    ev.decision = draft.decision ∧ ev.payload = draft.payload.getD (ascii "\x7b\x7d")

theorem WritesRow.carries {before after : Db σ} {ev : AuditEvent}
    (writes : WritesRow sha256 s call draft before ev after) :
    Carries draft ev := by
  rw [writes.row]
  exact ⟨rfl, rfl, rfl, rfl, rfl⟩

/-- What a call may do, given the first call that committed under its key. -/
structure RecordedOnce (sha256 : Bytes → Bytes) (first : Option OnceRecord)
    (record : OnceRecord) : Prop where
  event : first = none → record.added = [] ∨ ∃ ev, record.added = [ev] ∧ Carries record.draft ev
  resend : ∀ seen, first = some seen →
    eventDigest sha256 record.draft = eventDigest sha256 seen.draft → record.added = []
  conflict : ∀ seen, first = some seen →
    eventDigest sha256 record.draft ≠ eventDigest sha256 seen.draft →
      (record.added = [] ∧ record.result ≠ .ok false) ∨
        ∃ ev, record.added = [ev] ∧ Carries (conflictDraft record.key
          (eventDigest sha256 seen.draft) (eventDigest sha256 record.draft) record.draft) ev
  onlyEvent : record.result = .ok true → first = none ∧ record.added ≠ []
  reported : first = none → record.added ≠ [] →
    record.call.faults.commit ≠ .unacknowledged → record.result = .ok true

/-- Every call of a run did what it may. -/
def AllRecordedOnce (sha256 : Bytes → Bytes) (records : List OnceRecord) : Prop :=
  ∀ before record after, records = before ++ record :: after →
    RecordedOnce sha256 (firstCommitted before record.key) record

/-! ## The remembered keys -/

theorem firstCommitted_concat (records : List OnceRecord) (record : OnceRecord) (key : Bytes) :
    firstCommitted (records ++ [record]) key =
      (firstCommitted records key).or
        (if record.key = key ∧ record.added ≠ [] then some record else none) := by
  rw [firstCommitted, List.find?_append]
  congr 1
  by_cases same : record.key = key
  · by_cases empty : record.added = []
    · simp [same, empty]
    · simp [same, empty]
  · simp [same]

variable {records : List OnceRecord} {first : OnceRecord}

theorem firstCommitted_eq_some_iff :
    firstCommitted records key = some first ↔
      first.key = key ∧ first.added ≠ [] ∧
        ∃ front back, records = front ++ first :: back ∧ firstCommitted front key = none := by
  simp only [firstCommitted, List.find?_eq_some_iff_append, List.find?_eq_none]
  simp only [Bool.and_eq_true, decide_eq_true_eq, Bool.not_eq_true', List.isEmpty_eq_false_iff,
    and_assoc]
  simp

/-- The table of remembered keys against the records so far: a key without a
commit is free, and a key within its retention is taken by its first commit. -/
structure OnceInvariant (sha256 : Bytes → Bytes) (start : Store σ) (records : List OnceRecord)
    (s : Store σ) : Prop where
  rows : s.db.auditLog.rows = start.db.auditLog.rows ++ records.flatMap OnceRecord.added
  free : ∀ key, firstCommitted records key = none → s.db.auditOnce.lookup key = none
  taken : ∀ front first back, records = front ++ first :: back →
    firstCommitted front first.key = none → first.added ≠ [] →
    (∀ other ∈ back, other.call.now ≤ first.call.now + auditOnceRetention) →
    s.db.auditOnce.lookup first.key =
      some ⟨first.key, eventDigest sha256 first.draft, first.call.now⟩

variable {record : OnceRecord}

/-- A record list ends either before or with its last record. -/
theorem concat_split {front back : List OnceRecord}
    (split : records ++ [record] = front ++ first :: back) :
    (back = [] ∧ front = records ∧ first = record) ∨
      ∃ back', back = back' ++ [record] ∧ records = front ++ first :: back' := by
  rcases List.eq_nil_or_concat back with rfl | ⟨back', last, rfl⟩
  · obtain ⟨frontEq, lastEq⟩ := List.append_inj' split rfl
    exact .inl ⟨rfl, frontEq.symm, (List.cons.inj lastEq).1.symm⟩
  · rw [List.concat_eq_append] at *
    have split' : records ++ [record] = (front ++ first :: back') ++ [last] := by
      rw [split]
      simp
    obtain ⟨recordsEq, lastEq⟩ := List.append_inj' split' rfl
    rw [(List.cons.inj lastEq).1]
    exact .inr ⟨back', rfl, recordsEq⟩

theorem WithinRetention.init (retained : WithinRetention (records ++ [record])) :
    WithinRetention records := by
  intro front first middle later back split
  exact retained front first middle later (back ++ [record]) (by rw [split]; simp)

section Call

variable {start s : Store σ} {records : List OnceRecord} {call : Call} {key : Bytes}
  {draft : AuditDraft}

variable {record : OnceRecord} {s' : Store σ}

/-- Within the retention, the table names the first commit under the key of the
next call. -/
theorem OnceInvariant.lookup (invariant : OnceInvariant sha256 start records s)
    (retained : WithinRetention (records ++ [record])) :
    s.db.auditOnce.lookup record.key = (firstCommitted records record.key).map fun first =>
        ⟨first.key, eventDigest sha256 first.draft, first.call.now⟩ := by
  cases found : firstCommitted records record.key with
  | none => exact invariant.free record.key found
  | some first =>
  obtain ⟨keyEq, added, front, back, split, unseen⟩ := firstCommitted_eq_some_iff.mp found
  rw [← keyEq] at unseen ⊢
  apply invariant.taken front first back split unseen added
  intro other member
  exact retained front first back record [] (by rw [split]) unseen added keyEq.symm
    other (List.mem_append_left _ member)

/-- A record that added nothing leaves the table as it describes it. -/
theorem OnceInvariant.unchanged (invariant : OnceInvariant sha256 start records s)
    (rows : s'.db.auditLog.rows = s.db.auditLog.rows ++ record.added)
    (once : s'.db.auditOnce = s.db.auditOnce)
    (known : record.added = [] ∨ firstCommitted records record.key ≠ none) :
    OnceInvariant sha256 start (records ++ [record]) s' := by
  constructor
  · rw [rows, invariant.rows]
    simp
  · intro name absent
    rw [firstCommitted_concat, Option.or_eq_none_iff] at absent
    rw [once]
    exact invariant.free name absent.1
  · intro front first back split unseen added recent
    rw [once]
    rcases concat_split split with ⟨-, frontEq, firstEq⟩ | ⟨back', rfl, split'⟩
    · subst frontEq firstEq
      rcases known with nothing | seen
      · exact absurd nothing added
      · exact absurd unseen seen
    · exact invariant.taken front first back' split' unseen added fun other member =>
        recent other (List.mem_append_left _ member)

/-- The first commit under a key takes it. -/
theorem OnceInvariant.committed (invariant : OnceInvariant sha256 start records s)
    (rows : s'.db.auditLog.rows = s.db.auditLog.rows ++ record.added) (added : record.added ≠ [])
    (free : s.db.auditOnce.lookup record.key = none)
    (unseen : firstCommitted records record.key = none)
    (kept : ∀ name row,
      (s.db.auditOnce.insert
        ⟨record.key, eventDigest sha256 record.draft, record.call.now⟩).2.lookup name =
          some row →
        record.call.now - auditOnceRetention ≤ row.createdAt →
        s'.db.auditOnce.lookup name = some row)
    (absent : ∀ name,
      (s.db.auditOnce.insert
        ⟨record.key, eventDigest sha256 record.draft, record.call.now⟩).2.lookup name =
          none →
        s'.db.auditOnce.lookup name = none) :
    OnceInvariant sha256 start (records ++ [record]) s' := by
  have inserted := @Table.lookup_insert_of_none _ _ OnceRow.key _ s.db.auditOnce
    ⟨record.key, eventDigest sha256 record.draft, record.call.now⟩ free
  constructor
  · rw [rows, invariant.rows]
    simp
  · intro name uncommitted
    rw [firstCommitted_concat, Option.or_eq_none_iff] at uncommitted
    have otherKey : record.key ≠ name := by
      intro same
      simp [same, added] at uncommitted
    apply absent
    rw [inserted name, if_neg otherKey]
    exact invariant.free name uncommitted.1
  · intro front first back split firstUnseen firstAdded recent
    rcases concat_split split with ⟨-, frontEq, firstEq⟩ | ⟨back', rfl, split'⟩
    · subst firstEq
      apply kept
      · rw [inserted, if_pos rfl]
      · simp only [auditOnceRetention]
        omega
    · -- an earlier commit, under another key and recent enough to survive the pruning
      have otherKey : record.key ≠ first.key := by
        intro same
        have found : firstCommitted records first.key = some first :=
          firstCommitted_eq_some_iff.mpr ⟨rfl, firstAdded, front, back', split', firstUnseen⟩
        rw [← same, unseen] at found
        contradiction
      apply kept
      · rw [inserted, if_neg otherKey]
        exact invariant.taken front first back' split' firstUnseen firstAdded
          fun other member => recent other (List.mem_append_left _ member)
      · have bound := recent record (by simp)
        simp only
        omega

theorem OnceInvariant.next (invariant : OnceInvariant sha256 start records s)
    (retained : WithinRetention (records ++ [onceRecord sha256 s call key draft])) :
    OnceInvariant sha256 start (records ++ [onceRecord sha256 s call key draft])
        (appendAuditOnce sha256 s call key draft).1 ∧
      RecordedOnce sha256 (firstCommitted records key) (onceRecord sha256 s call key draft) := by
  have named : s.db.auditOnce.lookup key = (firstCommitted records key).map fun first =>
        ⟨first.key, eventDigest sha256 first.draft, first.call.now⟩ :=
    invariant.lookup retained
  cases @appendAuditOnce_cases σ sha256 s call key draft with
  | nothing rows once result =>
    have added : (onceRecord sha256 s call key draft).added = [] := by
      simp [onceRecord, rows]
    refine ⟨invariant.unchanged (by rw [rows, added]; simp) once (.inl added), ?_⟩
    constructor
    · exact fun _ => .inl added
    · exact fun _ _ _ => added
    · -- a call that answers false without a row resent the recorded digest
      rintro seen first different
      refine .inl ⟨added, ?_⟩
      intro answered
      rcases result with ⟨err, failed⟩ | ⟨-, row, taken, same⟩
      · rw [onceRecord, failed] at answered
        contradiction
      · rw [named, first] at taken
        rw [← Option.some.inj taken] at same
        exact different same.symm
    · intro answered
      rcases result with ⟨err, failed⟩ | ⟨failed, -⟩
      · rw [onceRecord, failed] at answered
        contradiction
      · rw [onceRecord, failed] at answered
        simp at answered
    · exact fun _ some => absurd added some
  | event ev free writes kept absent result =>
    have added : (onceRecord sha256 s call key draft).added = [ev] := by
      simp [onceRecord, writes.rows]
    have unseen : firstCommitted records key = none := by
      rw [named] at free
      exact Option.map_eq_none_iff.mp free
    refine ⟨invariant.committed (by rw [writes.rows, added]) (by simp [added]) free unseen
      kept absent, ?_⟩
    constructor
    · exact fun _ => .inr ⟨ev, added, writes.carries⟩
    · intro seen first
      rw [unseen] at first
      contradiction
    · intro seen first
      rw [unseen] at first
      contradiction
    · exact fun _ => ⟨unseen, by simp [added]⟩
    · intro _ _ acknowledged
      rcases result with answered | ⟨lost, -⟩
      · exact answered
      · exact absurd lost acknowledged
  | conflict ev row taken different writes once result =>
    have added : (onceRecord sha256 s call key draft).added = [ev] := by
      simp [onceRecord, writes.rows]
    obtain ⟨seen, first, rowEq⟩ : ∃ seen, firstCommitted records key = some seen ∧
        (⟨seen.key, eventDigest sha256 seen.draft, seen.call.now⟩ : OnceRow) = row := by
      rw [named] at taken
      simpa using taken
    have digestEq : row.digest = eventDigest sha256 seen.draft := by rw [← rowEq]
    have known : firstCommitted records key ≠ none := by simp [first]
    refine ⟨invariant.unchanged (by rw [writes.rows, added]) once (.inr known), ?_⟩
    constructor
    · exact fun none => absurd none known
    · intro seen' first' same
      rw [first] at first'
      rw [digestEq, Option.some.inj first'] at different
      exact absurd same.symm different
    · intro seen' first' _
      rw [first] at first'
      rw [← Option.some.inj first', ← digestEq]
      exact .inr ⟨ev, added, writes.carries⟩
    · intro answered
      rcases result with refused | ⟨err, failed⟩
      · rw [onceRecord, refused] at answered
        simp at answered
      · rw [onceRecord, failed] at answered
        contradiction
    · exact fun none => absurd none known

end Call

/-! ## Whole runs -/

theorem OnceRun.recorded {start : Store σ} (run : OnceRun sha256 start records s)
    (fresh : start.db.auditOnce.rows = []) (retained : WithinRetention records) :
    OnceInvariant sha256 start records s ∧ AllRecordedOnce sha256 records := by
  induction run with
  | start =>
    constructor
    · constructor
      · simp
      · intro key _
        rw [Table.lookup_eq_none_iff, fresh]
        simp
      · simp
    · simp [AllRecordedOnce]
  | between run db ih =>
    obtain ⟨invariant, recorded⟩ := ih retained
    refine ⟨⟨?_, ?_, ?_⟩, recorded⟩
    · rw [db]
      exact invariant.rows
    · rw [db]
      exact invariant.free
    · rw [db]
      exact invariant.taken
  | call run call key draft ih =>
    obtain ⟨invariant, recorded⟩ := ih retained.init
    obtain ⟨invariant', last⟩ := invariant.next retained
    refine ⟨invariant', ?_⟩
    intro before record after split
    rcases concat_split split with ⟨-, rfl, rfl⟩ | ⟨after', -, split'⟩
    · exact last
    · exact recorded before record after' split'

end OmegaPlane.Storage
