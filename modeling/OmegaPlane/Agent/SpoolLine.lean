import OmegaPlane.Agent.Pdp
import OmegaPlane.Data.JsonExtend
import OmegaPlane.Data.Journal

/-!
# Lines of the spool

A line is the JSON object of a decision, with the encoded decision as it is.  It
nests one level deeper than the decision, and a text that nests too deep is
written but not read.
-/

namespace OmegaPlane.Agent

open Json

/-- The line of a decision. -/
def spoolLine (queued : Queued) : Bytes :=
  ascii "\x7b\"id\":" ++ quote queued.id ++ ascii ",\"revision\":" ++ quote queued.revision ++
    ascii ",\"decision\":" ++ queued.raw ++ ascii "\x7d"

/-- A text of one value that nests at most `levels` deep. -/
def reads (levels : Nat) (text : Bytes) : Bool :=
  match value (text.length + 1) levels text with
  | some (_, []) => true
  | _ => false

/-- Writing a line checks the text of the decision. -/
def Queued.marshals (queued : Queued) : Bool :=
  reads maxNestingDepth queued.raw

/-- Set a string from a member with the name; a null is passed over. -/
def setString (name : Bytes) (member : Member) (current : Bytes) : Option Bytes :=
  if foldName member.name = foldName name then
    match member.doc with
    | .str text => some text
    | .null => some current
    | _ => none
  else some current

/-- Set a text from a member with the name. -/
def setRaw (name : Bytes) (member : Member) (current : Bytes) : Bytes :=
  if foldName member.name = foldName name then member.raw else current

/-- Set the fields of an entry from the members of an object. -/
def setEntry : Queued → List Member → Option Queued
  | entry, [] => some entry
  | entry, member :: rest =>
    match setString (ascii "id") member entry.id,
        setString (ascii "revision") member entry.revision with
    | some id, some revision =>
      setEntry ⟨id, setRaw (ascii "decision") member entry.raw, revision⟩ rest
    | _, _ => none

/-- Decode a line. -/
def unmarshalEntry (text : Bytes) : Option Queued :=
  match objectMembers text with
  | some found => setEntry ⟨[], [], []⟩ found
  | none =>
    match decode text with
    | some .null => some ⟨[], [], []⟩
    | _ => none

def spoolFormat : Journal.Format Queued where
  line := spoolLine
  read := unmarshalEntry

theorem spoolFormat_line (queued : Queued) : spoolFormat.line queued = spoolLine queued :=
  rfl

theorem spoolFormat_read (text : Bytes) : spoolFormat.read text = unmarshalEntry text :=
  rfl

/-- A decision whose line is read back. -/
structure Readable (queued : Queued) : Prop where
  id : ∃ random, queued.id = newID random
  revision : ∃ digest, queued.revision = Hex.encodeToString digest
  opens : ∃ inside, queued.raw = 123 :: inside
  feed : 10 ∉ queued.raw
  shallow : reads (maxNestingDepth - 1) queued.raw = true

variable {levels fuel : Nat} {text : Bytes}

theorem reads_eq_true :
    reads levels text = true ↔ ∃ doc, value (text.length + 1) levels text = some (doc, []) := by
  unfold reads
  split
  · rename_i doc found
    simp [found]
  · rename_i other
    simpa using fun doc found => other doc found

/-! ## Reading a line back -/

theorem quote_append (text rest : Bytes) : quote text ++ rest = 34 ::
    (quoteFrom 0 text ++ 34 :: rest) := by
  simp [quote]

variable {name rest body : Bytes} {doc : Doc} {first : Member} {queued : Queued}

theorem member_of_value (starts : skipSpace (body ++ rest) = body ++ rest)
    (read : value fuel levels (body ++ rest) = some (doc, rest)) :
    member fuel levels (quote name ++ 58 :: (body ++ rest)) =
      some (⟨Utf8.scrub name, body, doc⟩, rest) := by
  have colon : skipSpace (58 :: (body ++ rest)) = 58 :: (body ++ rest) := rfl
  rw [quote_append name]
  simp only [member, unquote_quote, colon, starts, read, Option.map_some, List.length_append,
    Nat.add_sub_cancel, List.take_left]

theorem member_string (fuel levels : Nat) (name text rest : Bytes) :
    member (fuel + 1) levels (quote name ++ 58 :: (quote text ++ rest)) =
      some (⟨Utf8.scrub name, quote text, .str (Utf8.scrub text)⟩, rest) := by
  apply member_of_value
  · rw [quote_append]
    rfl
  · rw [quote_append]
    simp [value, unquote_quote]

theorem member_raw {fuel levels : Nat} {name raw rest : Bytes} {doc : Doc}
    (opens : ∃ inside, raw = 123 :: inside) (enough : raw.length + 1 ≤ fuel)
    (read : value (raw.length + 1) levels raw = some (doc, [])) :
    member fuel levels (quote name ++ 58 :: (raw ++ rest)) =
      some (⟨Utf8.scrub name, raw, doc⟩, rest) := by
  obtain ⟨inside, rfl⟩ := opens
  apply member_of_value
  · rfl
  · exact value_append read (.inr ⟨123, inside, rfl, by simp⟩) enough rest

theorem skipSpace_quote (text rest : Bytes) : skipSpace
    (quote text ++ rest) = quote text ++ rest := by
  rw [quote_append]
  rfl

theorem members_more {more : Bytes} {others : List Member}
    (one : member fuel levels text = some (first, 44 :: (quote name ++ more)))
    (later : members fuel levels (quote name ++ more) = some (others, rest)) :
    members (fuel + 1) levels text = some (first :: others, rest) := by
  simp [members, one, skipSpace_quote, later]

theorem members_last (one : member fuel levels text = some (first, 125 :: rest)) :
    members (fuel + 1) levels text = some ([first], rest) := by
  simp [members, one]

/-- A line with its names written as strings. -/
theorem spoolLine_eq (queued : Queued) :
    spoolLine queued = 123 :: (quote (ascii "id") ++ 58 :: (quote queued.id ++
      44 :: (quote (ascii "revision") ++ 58 :: (quote queued.revision ++
        44 :: (quote (ascii "decision") ++ 58 :: (queued.raw ++ [125])))))) := by
  simp [spoolLine, show ascii "\x7b\"id\":" = 123 :: (quote (ascii "id") ++ [58]) by decide,
    show ascii ",\"revision\":" = 44 :: (quote (ascii "revision") ++ [58]) by decide,
    show ascii ",\"decision\":" = 44 :: (quote (ascii "decision") ++ [58]) by decide,
    show ascii "\x7d" = [125] by decide]

/-- The members of a line. -/
theorem members_spoolLine (opens : ∃ inside, queued.raw = 123 :: inside)
    (enough : queued.raw.length + 4 ≤ fuel)
    (read : value (queued.raw.length + 1) (maxNestingDepth - 1) queued.raw = some (doc, [])) :
    members fuel (maxNestingDepth - 1) (spoolLine queued).tail =
      some ([⟨ascii "id", quote queued.id, .str (Utf8.scrub queued.id)⟩,
        ⟨ascii "revision", quote queued.revision, .str (Utf8.scrub queued.revision)⟩,
        ⟨ascii "decision", queued.raw, doc⟩], []) := by
  obtain ⟨fuel, rfl⟩ : ∃ n, fuel = n + 3 := ⟨fuel - 3, by omega⟩
  rw [spoolLine_eq, List.tail_cons]
  have plain : Utf8.scrub (ascii "id") = ascii "id" ∧
      Utf8.scrub (ascii "revision") = ascii "revision" ∧
      Utf8.scrub (ascii "decision") = ascii "decision" := by decide
  have decision := @member_raw fuel (maxNestingDepth - 1) (ascii "decision") queued.raw [125] doc
    opens (by omega) read
  have revision := member_string fuel (maxNestingDepth - 1) (ascii "revision") queued.revision
    (44 :: (quote (ascii "decision") ++ 58 :: (queued.raw ++ [125])))
  have id := member_string (fuel + 1) (maxNestingDepth - 1) (ascii "id") queued.id
    (44 :: (quote (ascii "revision") ++ 58 :: (quote queued.revision ++
      44 :: (quote (ascii "decision") ++ 58 :: (queued.raw ++ [125])))))
  rw [plain.2.2] at decision
  rw [plain.2.1] at revision
  rw [plain.1] at id
  exact members_more id (members_more revision (members_last decision))

theorem setEntry_spoolLine {id revision raw : Bytes} (idText revisionText : Bytes) (doc : Doc) :
    setEntry ⟨[], [], []⟩ [⟨ascii "id", idText, .str id⟩, ⟨ascii "revision", revisionText, .str revision⟩,
      ⟨ascii "decision", raw, doc⟩] = some ⟨id, raw, revision⟩ := by
  have idRevision : foldName (ascii "id") ≠ foldName (ascii "revision") := by decide
  have idDecision : foldName (ascii "id") ≠ foldName (ascii "decision") := by decide
  have revisionDecision : foldName (ascii "revision") ≠ foldName (ascii "decision") := by decide
  simp [setEntry, setString, setRaw, idRevision, idRevision.symm, idDecision.symm,
    revisionDecision.symm]

/-! ## Texts that nest too deep -/

theorem value_arrays {count : Nat} (deep : levels < count) (fuel : Nat) (rest : Bytes) :
    value fuel levels (List.replicate count 91 ++ rest) = none := by
  induction count generalizing fuel levels with
  | zero => omega
  | succ count ih =>
  cases fuel with
  | zero => rfl
  | succ fuel =>
  rw [List.replicate_succ, List.cons_append]
  cases levels with
  | zero => simp [value]
  | succ levels =>
  obtain ⟨more, rfl⟩ : ∃ more, count = more + 1 := ⟨count - 1, by omega⟩
  have inside := fun fuel => @ih levels (by omega) fuel
  rw [List.replicate_succ, List.cons_append] at inside ⊢
  rw [value_array_eq (show skipSpace (91 :: _) = 91 :: _ from rfl) (by decide)]
  cases fuel with
  | zero => rfl
  | succ => simp [items, inside]

theorem fields_of_value_none (starts : skipSpace body = body)
    (deep : ∀ fuel, value fuel levels body = none) (fuel : Nat) (name : Bytes) :
    fields fuel levels (quote name ++ 58 :: body) = none := by
  cases fuel with
  | zero => rfl
  | succ =>
    have colon : skipSpace (58 :: body) = 58 :: body := rfl
    rw [quote_append]
    simp only [fields, unquote_quote, colon, starts, deep]

variable {next : Bytes}

theorem fields_of_later_none (deep : ∀ fuel, fields fuel levels next = none)
    (starts : skipSpace next = next) (fuel : Nat) (name text : Bytes) :
    fields fuel levels (quote name ++ 58 :: (quote text ++ 44 :: next)) = none := by
  cases fuel with
  | zero => rfl
  | succ fuel =>
  have colon : ∀ rest, skipSpace (58 :: rest) = 58 :: rest := fun _ => rfl
  rw [quote_append]
  simp only [fields, unquote_quote, colon, skipSpace_quote]
  cases fuel with
  | zero => rfl
  | succ =>
    rw [quote_append text]
    simp [value, unquote_quote, starts, deep]

theorem value_of_fields_none (deep : ∀ fuel, fields fuel levels (quote name ++ rest) = none)
    (fuel : Nat) :
    value fuel (levels + 1) (123 :: (quote name ++ rest)) = none := by
  cases fuel with
  | zero => rfl
  | succ fuel =>
  have inside := deep fuel
  rw [quote_append] at inside ⊢
  rw [value_object_eq (show skipSpace (34 :: _) = 34 :: _ from rfl) (by decide), inside]
  rfl

theorem members_of_later_none {name' : Bytes}
    (deep : ∀ fuel, members fuel levels (quote name' ++ next) = none) (fuel : Nat)
    (name text : Bytes) :
    members fuel levels (quote name ++ 58 :: (quote text ++ 44 :: (quote name' ++ next))) = none := by
  cases fuel with
  | zero => rfl
  | succ fuel =>
  cases fuel with
  | zero =>
    rw [quote_append]
    simp [members, member, unquote_quote, value]
  | succ fuel =>
    have first := member_string fuel levels name text (44 :: (quote name' ++ next))
    rw [members, first]
    simp [skipSpace_quote, deep]

theorem objectMembers_of_members_none
    (deep : ∀ fuel, members fuel (maxNestingDepth - 1) (quote name ++ rest) = none) :
    objectMembers (123 :: (quote name ++ rest)) = none := by
  rw [quote_append] at deep ⊢
  simp [objectMembers, deep]

/-- A line whose decision nests too deep is not read. -/
theorem unmarshalEntry_of_deep (starts : skipSpace (queued.raw ++ [125]) = queued.raw ++ [125])
    (deep : ∀ fuel, value fuel (maxNestingDepth - 1) (queued.raw ++ [125]) = none) :
    unmarshalEntry (spoolLine queued) = none := by
  have decision : ∀ fuel, member fuel (maxNestingDepth - 1)
      (quote (ascii "decision") ++ 58 :: (queued.raw ++ [125])) = none := by
    intro fuel
    have colon : skipSpace (58 :: (queued.raw ++ [125])) = 58 :: (queued.raw ++ [125]) := rfl
    rw [quote_append]
    simp only [member, unquote_quote, colon, starts, deep, Option.map_none]
  have last : ∀ fuel, members fuel (maxNestingDepth - 1)
      (quote (ascii "decision") ++ 58 :: (queued.raw ++ [125])) = none := by
    intro fuel
    cases fuel with
    | zero => rfl
    | succ => simp [members, decision]
  have all := objectMembers_of_members_none fun fuel =>
    members_of_later_none (fun fuel => members_of_later_none last fuel (ascii "revision")
      queued.revision) fuel (ascii "id") queued.id
  rw [unmarshalEntry, spoolLine_eq, all]
  dsimp only
  split
  · rename_i null
    exact absurd null (decode_object_ne_null _)
  · rfl

/-! ## The format -/

theorem scrub_hex (bytes : Bytes) :
    Utf8.scrub (Hex.encodeToString bytes) = Hex.encodeToString bytes :=
  Utf8.scrub_of_valid (Utf8.validFrom_of_ascii fun _ member =>
    Hex.lt_of_mem (Hex.decodeString_encodeToString bytes) member)

/-- A line starts with the name of the id. -/
theorem spoolLine_head (queued : Queued) :
    ∃ more, spoolLine queued = 123 :: 34 :: more ∧ queued.raw.length + 4 ≤ more.length + 2 := by
  rw [spoolLine_eq, quote_append]
  refine ⟨_, rfl, ?_⟩
  simp only [List.length_append, List.length_cons, quote_append]
  omega

/-- What a line holds. -/
theorem Readable.members (readable : Readable queued) :
    ∃ more doc, spoolLine queued = 123 :: 34 :: more ∧
      Json.members (more.length + 2) (maxNestingDepth - 1) (34 :: more) =
        some ([⟨ascii "id", quote queued.id, .str queued.id⟩,
          ⟨ascii "revision", quote queued.revision, .str queued.revision⟩,
          ⟨ascii "decision", queued.raw, doc⟩], []) := by
  obtain ⟨doc, read⟩ := reads_eq_true.mp readable.shallow
  obtain ⟨more, head, enough⟩ := spoolLine_head queued
  have found := members_spoolLine readable.opens enough read
  obtain ⟨random, idHex⟩ := readable.id
  obtain ⟨digest, revisionHex⟩ := readable.revision
  rw [idHex, newID, scrub_hex, ← newID, ← idHex, revisionHex, scrub_hex, ← revisionHex, head,
    List.tail_cons] at found
  exact ⟨more, doc, head, found⟩

/-- A line is read back. -/
theorem unmarshalEntry_spoolLine (readable : Readable queued) :
    unmarshalEntry (spoolLine queued) = some queued := by
  obtain ⟨more, doc, head, found⟩ := readable.members
  rw [unmarshalEntry, head, objectMembers_of_members found]
  exact setEntry_spoolLine _ _ _

/-- A torn line is not read. -/
theorem unmarshalEntry_torn (readable : Readable queued) {part : Bytes}
    (isPart : part <+: spoolLine queued) (proper : part ≠ spoolLine queued) :
    unmarshalEntry part = none := by
  obtain ⟨more, doc, head, found⟩ := readable.members
  rw [head] at isPart proper
  rw [unmarshalEntry, objectMembers_torn found isPart proper]
  cases part with
  | nil => rfl
  | cons first inside =>
  obtain ⟨rfl, -⟩ := List.cons_prefix_cons.mp isPart
  dsimp only
  split
  · rename_i null
    exact absurd null (decode_object_ne_null inside)
  · rfl

theorem feed_notMem_spoolLine (readable : Readable queued) : 10 ∉ spoolLine queued := by
  simp [spoolLine_eq, feed_notMem_quote, readable.feed]

theorem trimSpace_spoolLine (queued : Queued) : Text.trimSpace (spoolLine queued) ≠ [] := by
  obtain ⟨inside, whole⟩ : ∃ inside, spoolLine queued = 123 :: (inside ++ [125]) := by
    refine ⟨quote (ascii "id") ++ 58 :: (quote queued.id ++ 44 :: (quote (ascii "revision") ++
      58 :: (quote queued.revision ++ 44 :: (quote (ascii "decision") ++ 58 :: queued.raw)))), ?_⟩
    simp [spoolLine_eq]
  rw [whole, Text.trimSpace_braces]
  simp

/-- The lines of decisions that nest below the limit are kept. -/
theorem spoolFormat_lawful : spoolFormat.Lawful Readable := by
  constructor
  · intro queued readable
    rw [spoolFormat_line, spoolFormat_read]
    exact unmarshalEntry_spoolLine readable
  · intro queued readable
    rw [spoolFormat_line]
    exact feed_notMem_spoolLine readable
  · intro queued _
    rw [spoolFormat_line]
    exact trimSpace_spoolLine queued
  · intro queued part readable isPart proper
    rw [spoolFormat_line] at isPart proper
    rw [spoolFormat_read]
    exact unmarshalEntry_torn readable isPart proper

end OmegaPlane.Agent
