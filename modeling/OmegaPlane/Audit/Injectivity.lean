import OmegaPlane.Audit.Verify
import OmegaPlane.Crypto.Sha256

/-!
# What a row's code determines

The columns under a row's code are joined with an unescaped separator.  The
joined text determines the columns exactly when no free-text column contains
the separator, and the verification walk detects a replaced row exactly then;
a replacement numbered zero is passed over in the first place and only there.
-/

namespace OmegaPlane.Audit

open Chain

variable {sha256 : Bytes → Bytes} {keys : Option KeySet} {epoch : Option Int}

/-! ## The authenticated text -/

private theorem separator_notMem_decimal (n : Int) : columnSeparator ∉ decimal n := by
  intro member
  rcases decimal_mem member with minus | digit
  · exact absurd minus (by decide)
  · exact absurd digit.2 (by decide)

variable {first second : AuditEvent}

variable {key : Bytes}

private theorem join_eq_of_macInput_eq (keyIDs : first.keyID = second.keyID)
    (inputs : macInput first key = macInput second key) :
    Separated.join columnSeparator (decimal first.seq :: decimal first.ts :: first.texts) =
      Separated.join columnSeparator (decimal second.seq :: decimal second.ts :: second.texts) := by
  unfold macInput at inputs
  rw [keyIDs] at inputs
  exact List.append_cancel_right inputs

/-- Separator-free columns are determined by the authenticated text. -/
theorem covered_eq_of_macInput_eq (clean : ∀ text ∈ second.texts, columnSeparator ∉ text)
    (keyIDs : first.keyID = second.keyID) (inputs : macInput first key = macInput second key) :
    first.covered = second.covered := by
  have columnsClean : ∀ text ∈ decimal second.seq :: decimal second.ts :: second.texts,
      columnSeparator ∉ text := by
    intro text member
    simp only [List.mem_cons] at member
    rcases member with rfl | rfl | member
    · exact separator_notMem_decimal _
    · exact separator_notMem_decimal _
    · exact clean text member
  have lengthEq :
      (decimal first.seq :: decimal first.ts :: first.texts).length =
        (decimal second.seq :: decimal second.ts :: second.texts).length := by
    simp [AuditEvent.texts]
  have columnsEq := Separated.eq_of_join_eq columnsClean lengthEq
    (join_eq_of_macInput_eq keyIDs inputs)
  simp only [List.cons.injEq] at columnsEq
  obtain ⟨seqEq, tsEq, textsEq⟩ := columnsEq
  rw [AuditEvent.covered, AuditEvent.covered, decimal_injective seqEq,
    decimal_injective tsEq, textsEq]

/-- Columns with the same join of their texts have the same authenticated
text. -/
private theorem macInput_eq_of_join_eq (seqEq : first.seq = second.seq)
    (tsEq : first.ts = second.ts) (keyIDs : first.keyID = second.keyID)
    (joins : Separated.join columnSeparator first.texts =
      Separated.join columnSeparator second.texts) (key : Bytes) :
    macInput first key = macInput second key := by
  have split (ev : AuditEvent) :
      Separated.join columnSeparator (decimal ev.seq :: decimal ev.ts :: ev.texts) =
        Separated.join columnSeparator [decimal ev.seq, decimal ev.ts] ++
          columnSeparator :: Separated.join columnSeparator ev.texts := by
    have numbers : [decimal ev.seq, decimal ev.ts] ≠ [] := by simp
    exact Separated.join_append columnSeparator numbers (List.cons_ne_nil _ _)
  rw [macInput, macInput, split first, split second, seqEq, tsEq, joins, keyIDs]

/-- The columns a caller of the store fills. -/
def AuditEvent.callerTexts (ev : AuditEvent) : List Bytes :=
  [ev.kind, ev.actor, ev.subject, ev.decision, ev.payload]

variable {ev other : AuditEvent} {prev : Bytes} {sawKeyed : Bool}

/-- A separator in a caller's column can be traded for the column boundary
next to it: the result differs but has the same authenticated text. -/
private theorem exists_other_of_callerTexts {text : Bytes} (member : text ∈ ev.callerTexts)
    (present : columnSeparator ∈ text) :
    ∃ other : AuditEvent, other.seq = ev.seq ∧ other.prevHash = ev.prevHash ∧
      other.hash = ev.hash ∧ other.keyID = ev.keyID ∧ other.covered ≠ ev.covered ∧
      ∀ key, macInput other key = macInput ev key := by
  obtain ⟨others, lengthEq, different, joinEq⟩ :=
    Separated.exists_other_of_sep_mem (by simp [AuditEvent.callerTexts]) member present
  obtain ⟨kind, actor, subject, decision, payload, rfl⟩ :
      ∃ kind actor subject decision payload,
        others = [kind, actor, subject, decision, payload] := by
    simpa [AuditEvent.callerTexts, List.length_eq_succ_iff, eq_comm] using lengthEq
  let other : AuditEvent :=
    { ev with
      kind := kind
      actor := actor
      subject := subject
      decision := decision
      payload := payload }
  have joins : Separated.join columnSeparator other.texts =
      Separated.join columnSeparator ev.texts := by
    have split (row : AuditEvent) : Separated.join columnSeparator row.texts =
        Separated.join columnSeparator row.callerTexts ++ columnSeparator :: row.prevHash := by
      have parts : row.texts = row.callerTexts ++ [row.prevHash] := rfl
      rw [parts, Separated.join_append columnSeparator (by simp [AuditEvent.callerTexts])
        (by simp), Separated.join_singleton]
    rw [split, split]
    exact congrArg (· ++ columnSeparator :: ev.prevHash) joinEq
  refine ⟨other, rfl, rfl, rfl, rfl, ?_, macInput_eq_of_join_eq rfl rfl rfl joins⟩
  intro coveredEq
  apply different
  have textsEq : other.texts = ev.texts := congrArg (fun columns => columns.2.2) coveredEq
  exact congrArg (List.take 5) textsEq

/-- The joined text of a row determines its columns exactly when none of its
free-text columns contains the separator. -/
theorem macInput_determines_iff (key : Bytes) (ev : AuditEvent) :
    (∀ other : AuditEvent, other.keyID = ev.keyID →
        macInput other key = macInput ev key → other.covered = ev.covered) ↔
      ∀ text ∈ ev.texts, columnSeparator ∉ text := by
  constructor
  · intro determined text member present
    have parts : text ∈ ev.callerTexts ++ [ev.prevHash] := member
    rcases List.mem_append.mp parts with fromCaller | fromStore
    · obtain ⟨other, -, -, -, keyIDs, different, inputs⟩ :=
        exists_other_of_callerTexts fromCaller present
      exact different (determined other keyIDs (inputs key))
    · -- the boundary before the previous hash moves right
      obtain rfl := List.mem_singleton.mp fromStore
      obtain ⟨before, after, split⟩ := List.append_of_mem present
      let other : AuditEvent :=
        { ev with
          payload := ev.payload ++ columnSeparator :: before
          prevHash := after }
      have joins : Separated.join columnSeparator other.texts =
          Separated.join columnSeparator ev.texts := by
        simp [other, AuditEvent.texts, split]
      have inputs : macInput other key = macInput ev key :=
        @macInput_eq_of_join_eq other ev rfl rfl rfl joins key
      have coveredEq := determined other rfl inputs
      have textsEq : other.texts = ev.texts :=
        congrArg (fun columns => columns.2.2) coveredEq
      simp [other, AuditEvent.texts] at textsEq
  · intro clean other keyIDs inputs
    exact covered_eq_of_macInput_eq clean keyIDs inputs

/-! ## Replacing a row of a verifying chain -/

/-- The checks on a row read its number, link, hash, key id and code. -/
private theorem rowFails_congr (seqEq : other.seq = ev.seq) (linkEq : other.prevHash = ev.prevHash)
    (hashes : other.hash = ev.hash) (keyIDs : other.keyID = ev.keyID)
    (codes : ∀ key, macAuditEvent sha256 other key = macAuditEvent sha256 ev key) :
    rowFails sha256 keys epoch prev sawKeyed other =
      rowFails sha256 keys epoch prev sawKeyed ev := by
  have unkeyed : other.isUnkeyed = ev.isUnkeyed := isUnkeyed_congr keyIDs
  have past : pastEpoch epoch other = pastEpoch epoch ev := by
    simp only [pastEpoch, seqEq]
  have resolved : rowKey keys other = rowKey keys ev := rowKey_congr keyIDs
  unfold rowFails
  rw [unkeyed, past, resolved]
  cases rowKey keys ev with
  | none => rfl
  | some => simp only [linkEq, hashes, codes]

variable {before after : List AuditEvent}

/-- The walk cannot tell a row from another with the same hash and key id when
it also has the same number, link and code, or when it is numbered zero. -/
theorem Accepts.replace (accepted : Accepts sha256 keys epoch prev sawKeyed (before ++ ev :: after))
    (hashes : other.hash = ev.hash) (keyIDs : other.keyID = ev.keyID)
    (indistinct : other.seq = 0 ∨
      (other.seq = ev.seq ∧ other.prevHash = ev.prevHash ∧
        ∀ key, macAuditEvent sha256 other key = macAuditEvent sha256 ev key)) :
    Accepts sha256 keys epoch prev sawKeyed (before ++ other :: after) := by
  have unkeyed : other.isUnkeyed = ev.isUnkeyed := isUnkeyed_congr keyIDs
  induction before generalizing prev sawKeyed with
  | nil =>
    obtain ⟨passed, rest⟩ := accepted
    refine ⟨?_, by rw [hashes, unkeyed]; exact rest⟩
    rcases indistinct with zero | ⟨seqEq, linkEq, codes⟩
    · exact .inl zero
    · rw [seqEq, rowFails_congr seqEq linkEq hashes keyIDs codes]
      exact passed
  | cons first rest ih =>
    obtain ⟨passed, restAccepted⟩ := accepted
    exact ⟨passed, ih restAccepted⟩

/-- Two rows do not collide: equal codes come from equal texts. -/
def CollisionFree (sha256 : Bytes → Bytes) (first second : AuditEvent) : Prop :=
  ∀ key, macAuditEvent sha256 first key = macAuditEvent sha256 second key →
    macInput first key = macInput second key

/-- `changed` is the table with `ev` replaced by `other`. -/
def Replaced (log : AuditLog) (ev other : AuditEvent) (changed : AuditLog) : Prop :=
  changed.rows.Perm (other :: log.rows.erase ev)

private theorem AuditLog.nodup (log : AuditLog) : log.rows.Nodup :=
  log.ordered.imp fun less equal => by
    rw [equal] at less
    exact absurd less (lt_irrefl _)

/-- Tables with the same rows list them in the same order. -/
theorem AuditLog.rows_eq_of_perm {first second : List AuditEvent}
    (firstOrdered : first.Pairwise fun earlier later => earlier.seq < later.seq)
    (secondOrdered : second.Pairwise fun earlier later => earlier.seq < later.seq)
    (perm : first.Perm second) : first = second :=
  perm.eq_of_pairwise (fun _ _ _ _ less greater => absurd less (lt_asymm greater))
    firstOrdered secondOrdered

private theorem erase_split (nodup : (before ++ ev :: after).Nodup) :
    (before ++ ev :: after).erase ev = before ++ after := by
  have absent : ev ∉ before := fun member =>
    (List.disjoint_of_nodup_append nodup) member (by simp)
  rw [List.erase_append_right _ absent, List.erase_cons_head]

variable {log changed : AuditLog}

/-- A replacement numbered zero becomes the first row. -/
private theorem Replaced.rows_of_zero (positive : ∀ row ∈ log.rows, 0 < row.seq)
    (replaced : Replaced log ev other changed) (zero : other.seq = 0) :
    changed.rows = other :: log.rows.erase ev := by
  apply AuditLog.rows_eq_of_perm changed.ordered ?_ replaced
  refine List.pairwise_cons.mpr ⟨?_, log.ordered.sublist List.erase_sublist⟩
  intro row member
  rw [zero]
  exact positive row (List.mem_of_mem_erase member)

/-- A replacement with the same number stays in the place of the row. -/
private theorem exists_replaced_of_seq_eq (log : AuditLog)
    (split : log.rows = before ++ ev :: after) (seqEq : other.seq = ev.seq) :
    ∃ changed : AuditLog, Replaced log ev other changed ∧
      changed.rows = before ++ other :: after := by
  have ordered := log.ordered
  rw [split] at ordered
  refine ⟨⟨before ++ other :: after, ?_⟩, ?_, rfl⟩
  · simpa only [List.pairwise_append, List.pairwise_cons, List.forall_mem_cons, seqEq]
      using ordered
  · have nodup := log.nodup
    rw [split] at nodup
    rw [Replaced, split, erase_split nodup]
    exact List.perm_middle

/-- The links of a verifying chain are hashes, which contain no separator. -/
private theorem separator_notMem_prevHash {rows : List AuditEvent}
    (numbered : ∀ row ∈ rows, row.seq ≠ 0)
    (accepted : Accepts sha256 keys epoch genesisHash false rows) (member : ev ∈ rows) :
    columnSeparator ∉ ev.prevHash := by
  obtain ⟨linked, authentic, -⟩ := (accepts_iff numbered).mp accepted
  rcases linked.link_mem member with fromStart | ⟨previous, previousMember, fromPrevious⟩
  · rw [fromStart]
    decide
  · obtain ⟨key, -, decoded⟩ := authentic previous previousMember
    rw [fromPrevious]
    exact Hex.notMem_of_decodeString decoded (by decide)

/-- A separator-free row of a verifying chain cannot be replaced by a checked
row with other columns under the same hash and key id. -/
private theorem covered_eq_of_replaced (numbered : ∀ row ∈ log.rows, row.seq ≠ 0)
    (accepted : Accepts sha256 keys epoch genesisHash false log.rows) (member : ev ∈ log.rows)
    (clean : ∀ text ∈ ev.callerTexts, columnSeparator ∉ text) (hashes : other.hash = ev.hash)
    (keyIDs : other.keyID = ev.keyID) (checked : other.seq ≠ 0)
    (replaced : Replaced log ev other changed) (noCollision : CollisionFree sha256 other ev)
    (changedAccepted : Accepts sha256 keys epoch genesisHash false changed.rows) :
    other.covered = ev.covered := by
  obtain ⟨key, resolved, decoded⟩ := accepted.authentic member (numbered ev member)
  have otherMember : other ∈ changed.rows := replaced.mem_iff.mpr (by simp)
  obtain ⟨otherKey, otherResolved, otherDecoded⟩ :=
    changedAccepted.authentic otherMember checked
  have sameKey : otherKey = key := by
    rw [rowKey_congr keyIDs, resolved] at otherResolved
    exact (Option.some.inj otherResolved).symm
  subst sameKey
  have codes : macAuditEvent sha256 other otherKey = macAuditEvent sha256 ev otherKey := by
    rw [hashes, decoded] at otherDecoded
    exact (Option.some.inj otherDecoded).symm
  have textsClean : ∀ text ∈ ev.texts, columnSeparator ∉ text := by
    intro text textMember
    have parts : text ∈ ev.callerTexts ++ [ev.prevHash] := textMember
    rcases List.mem_append.mp parts with fromCaller | fromStore
    · exact clean text fromCaller
    · rw [List.mem_singleton.mp fromStore]
      exact separator_notMem_prevHash numbered accepted member
  exact covered_eq_of_macInput_eq textsClean keyIDs (noCollision otherKey codes)

/-- A replacement numbered zero is accepted exactly in the first place. -/
private theorem accepts_zero_iff (positive : ∀ row ∈ log.rows, 0 < row.seq)
    (accepted : Accepts sha256 keys epoch genesisHash false log.rows) (member : ev ∈ log.rows)
    (hashes : other.hash = ev.hash) (keyIDs : other.keyID = ev.keyID) (zero : other.seq = 0)
    (replaced : Replaced log ev other changed) :
    Accepts sha256 keys epoch genesisHash false changed.rows ↔ log.rows.head? = some ev := by
  have numbered : ∀ row ∈ log.rows, row.seq ≠ 0 := fun row rowMember =>
    (positive row rowMember).ne'
  rw [replaced.rows_of_zero positive zero]
  obtain ⟨key, -, decoded⟩ := accepted.authentic member (numbered ev member)
  cases rowsEq : log.rows with
  | nil => simp [rowsEq] at member
  | cons first rest =>
  rw [rowsEq] at accepted numbered
  by_cases isFirst : first = ev
  · subst isFirst
    have swapped : Accepts sha256 keys epoch genesisHash false ([] ++ other :: rest) :=
      Accepts.replace accepted hashes keyIDs (.inl zero)
    simpa using swapped
  · have firstKept : (first :: rest).erase ev = first :: rest.erase ev :=
      List.erase_cons_tail (by simpa using isFirst)
    simp only [firstKept, List.head?_cons, Option.some.injEq, isFirst, iff_false]
    -- the old first row now has the replacement before it
    rintro ⟨-, passed, -⟩
    have firstNumbered : first.seq ≠ 0 := numbered first (by simp)
    have linkNow := (rowFails_eq_false_iff.mp (passed.resolve_left firstNumbered)).1
    have linkBefore :=
      (rowFails_eq_false_iff.mp (accepted.1.resolve_left firstNumbered)).1
    rw [linkBefore, hashes] at linkNow
    exact genesisHash_ne_of_decodeString decoded linkNow.symm

/-- The first row of an unkeyed chain, for the actor and subject given. -/
def singleRow (actor subject : Bytes) : AuditEvent :=
  sealRow Crypto.Sha256.sum
    { seq := 1, ts := 0, kind := ascii "token.exchange", actor, subject,
      decision := ascii "allow", payload := ascii "\x7b\x7d", prevHash := genesisHash, hash := [],
      keyID := keyIDUnkeyed } []

private theorem accepts_singleRow (actor subject : Bytes) :
    Accepts Crypto.Sha256.sum none none genesisHash false [singleRow actor subject] :=
  ⟨.inr (rowFails_eq_false_iff.mpr ⟨rfl, authentic_sealRow rfl, by simp, by simp⟩), trivial⟩

/-- Exactly when the code of a row protects its columns.  The authenticated
text determines the columns of a row if and only if none of its texts contains
the separator.  In a verifying chain, replacing the columns of a row under its
hash and key id is detected if and only if none of the caller's texts contains
the separator, except that a replacement numbered zero goes undetected if and
only if the row is the first one. -/
theorem replaced_columns_detected_iff (sha256 : Bytes → Bytes) (keys : Option KeySet)
    (epoch : Option Int) (log : AuditLog) (positive : ∀ row ∈ log.rows, 0 < row.seq)
    (valid : (verifyRows sha256 keys epoch none log.rows).valid = true)
    (ev : AuditEvent) (member : ev ∈ log.rows) :
    (∀ (key : Bytes) (row : AuditEvent),
      (∀ other : AuditEvent, other.keyID = row.keyID →
          macInput other key = macInput row key → other.covered = row.covered) ↔
        ∀ text ∈ row.texts, columnSeparator ∉ text) ∧
    ((∀ (other : AuditEvent) (changed : AuditLog),
        other.hash = ev.hash → other.keyID = ev.keyID → other.covered ≠ ev.covered →
        other.seq ≠ 0 → Replaced log ev other changed → CollisionFree sha256 other ev →
        (verifyRows sha256 keys epoch none changed.rows).valid = false) ↔
      ∀ text ∈ ev.callerTexts, columnSeparator ∉ text) ∧
    (∀ (other : AuditEvent) (changed : AuditLog),
      other.hash = ev.hash → other.keyID = ev.keyID → other.seq = 0 →
      Replaced log ev other changed →
      ((verifyRows sha256 keys epoch none changed.rows).valid = true ↔
        log.rows.head? = some ev)) := by
  have accepted := verifyRows_none_valid_iff.mp valid
  have numbered : ∀ row ∈ log.rows, row.seq ≠ 0 := fun row rowMember =>
    (positive row rowMember).ne'
  refine ⟨macInput_determines_iff, ⟨?_, ?_⟩, ?_⟩
  · intro detected text textMember present
    obtain ⟨other, seqEq, linkEq, hashes, keyIDs, different, inputs⟩ :=
      exists_other_of_callerTexts textMember present
    obtain ⟨before, after, split⟩ := List.append_of_mem member
    obtain ⟨changed, replaced, rowsEq⟩ := exists_replaced_of_seq_eq log split seqEq
    have codes : ∀ key, macAuditEvent sha256 other key = macAuditEvent sha256 ev key := by
      intro key
      simp only [macAuditEvent, inputs]
    have invalid := detected other changed hashes keyIDs different
      (seqEq ▸ numbered ev member) replaced (fun key _ => inputs key)
    rw [split] at accepted
    have stillAccepted : Accepts sha256 keys epoch genesisHash false changed.rows := by
      rw [rowsEq]
      exact accepted.replace hashes keyIDs (.inr ⟨seqEq, linkEq, codes⟩)
    rw [verifyRows_none_valid_iff.mpr stillAccepted] at invalid
    contradiction
  · intro clean other changed hashes keyIDs different checked replaced noCollision
    rw [← Bool.not_eq_true, verifyRows_none_valid_iff]
    intro changedAccepted
    exact different (covered_eq_of_replaced numbered accepted member clean hashes keyIDs
      checked replaced noCollision changedAccepted)
  · intro other changed hashes keyIDs zero replaced
    rw [verifyRows_none_valid_iff]
    exact accepts_zero_iff positive accepted member hashes keyIDs zero replaced

/-- A row without separators keeps its columns. -/
theorem replaced_columns_detected_singleRow :
    (verifyRows Crypto.Sha256.sum none none none [singleRow (ascii "a") (ascii "bc")]).valid =
      true ∧
    ∀ (other : AuditEvent) (changed : AuditLog),
      other.hash = (singleRow (ascii "a") (ascii "bc")).hash →
      other.keyID = (singleRow (ascii "a") (ascii "bc")).keyID →
      other.covered ≠ (singleRow (ascii "a") (ascii "bc")).covered →
      other.seq ≠ 0 →
      Replaced ⟨[singleRow (ascii "a") (ascii "bc")], by simp⟩
        (singleRow (ascii "a") (ascii "bc")) other changed →
      CollisionFree Crypto.Sha256.sum other (singleRow (ascii "a") (ascii "bc")) →
      (verifyRows Crypto.Sha256.sum none none none changed.rows).valid = false := by
  have valid := verifyRows_none_valid_iff.mpr (accepts_singleRow (ascii "a") (ascii "bc"))
  have positive : ∀ row ∈ [singleRow (ascii "a") (ascii "bc")], 0 < row.seq := by
    simp [singleRow, sealRow]
  have clean : ∀ text ∈ (singleRow (ascii "a") (ascii "bc")).callerTexts,
      columnSeparator ∉ text := by
    simp only [singleRow, sealRow, AuditEvent.callerTexts]
    decide
  refine ⟨valid, ?_⟩
  exact (replaced_columns_detected_iff Crypto.Sha256.sum none none
    ⟨[singleRow (ascii "a") (ascii "bc")], by simp⟩ positive valid _ (by simp)).2.1.mpr clean

/-- Two rows with different actors and subjects, one hash and one authenticated
text: each is a verifying chain. -/
theorem separator_confuses_columns :
    (singleRow (ascii "a") (ascii "b|c")).covered ≠ (singleRow (ascii "a|b") (ascii "c")).covered ∧
    (singleRow (ascii "a") (ascii "b|c")).hash = (singleRow (ascii "a|b") (ascii "c")).hash ∧
    (singleRow (ascii "a") (ascii "b|c")).keyID = (singleRow (ascii "a|b") (ascii "c")).keyID ∧
    (∀ key, macInput (singleRow (ascii "a") (ascii "b|c")) key =
      macInput (singleRow (ascii "a|b") (ascii "c")) key) ∧
    (verifyRows Crypto.Sha256.sum none none none
      [singleRow (ascii "a") (ascii "b|c")]).valid = true ∧
    (verifyRows Crypto.Sha256.sum none none none
      [singleRow (ascii "a|b") (ascii "c")]).valid = true := by
  have inputs : ∀ key, macInput (singleRow (ascii "a") (ascii "b|c")) key =
      macInput (singleRow (ascii "a|b") (ascii "c")) key := by
    intro key
    have joins : Separated.join columnSeparator
        (singleRow (ascii "a") (ascii "b|c")).texts =
          Separated.join columnSeparator (singleRow (ascii "a|b") (ascii "c")).texts := by
      simp only [singleRow, sealRow, AuditEvent.texts]
      decide
    exact macInput_eq_of_join_eq rfl rfl rfl joins key
  refine ⟨?_, ?_, rfl, inputs, ?_, ?_⟩
  · simp only [singleRow, sealRow, AuditEvent.covered, AuditEvent.texts]
    decide
  · exact congrArg (fun input => Hex.encodeToString (Crypto.Sha256.sum input)) (inputs [])
  · exact verifyRows_none_valid_iff.mpr (accepts_singleRow _ _)
  · exact verifyRows_none_valid_iff.mpr (accepts_singleRow _ _)

end OmegaPlane.Audit
