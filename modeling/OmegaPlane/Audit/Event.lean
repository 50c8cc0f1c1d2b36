import OmegaPlane.Crypto.Hmac
import OmegaPlane.Data.Hex
import OmegaPlane.Data.Separated

/-!
# Audit rows and their codes

A row of `audit_log` and the code `macAuditEvent` computes for it: SHA-256 of
the joined columns without a key, HMAC-SHA-256 of the joined columns and the
key id with one.  SHA-256 is a parameter throughout the audit model, so every
result holds for whatever function the program is linked with; collision
freedom is assumed only where a statement says so.
-/

namespace OmegaPlane.Audit

open Crypto

/-- One entry of the audit chain.  `ts` is the time in nanoseconds, the form
in which both the `ts` column and the code carry it. -/
structure AuditEvent where
  seq : Int
  ts : Int
  kind : Bytes
  actor : Bytes
  subject : Bytes
  decision : Bytes
  payload : Bytes
  prevHash : Bytes
  hash : Bytes
  keyID : Bytes
  deriving DecidableEq

/-- The hash the first row links to. -/
def genesisHash : Bytes := ascii "GENESIS"

/-- The key id of rows that are not authenticated under a key. -/
def keyIDUnkeyed : Bytes := ascii "unkeyed"

/-- The byte between two columns of the authenticated text. -/
def columnSeparator : UInt8 := 124

namespace AuditEvent

/-- A row checked on the plain SHA-256 path. -/
def isUnkeyed (ev : AuditEvent) : Bool :=
  ev.keyID = [] ∨ ev.keyID = keyIDUnkeyed

/-- The free-text columns under the row's code, in the order it reads them. -/
def texts (ev : AuditEvent) : List Bytes :=
  [ev.kind, ev.actor, ev.subject, ev.decision, ev.payload, ev.prevHash]

/-- The columns the row's code is meant to cover. -/
def covered (ev : AuditEvent) : Int × Int × List Bytes :=
  (ev.seq, ev.ts, ev.texts)

end AuditEvent

/-- The bytes `macAuditEvent` hashes: `seq|ts|kind|actor|subject|decision|`,
the payload, `|`, the previous hash, and with a key `|keyid|` and the key id. -/
def macInput (ev : AuditEvent) (key : Bytes) : Bytes :=
  Separated.join columnSeparator (decimal ev.seq :: decimal ev.ts :: ev.texts) ++
    if key.length = 0 then [] else ascii "|keyid|" ++ ev.keyID

variable (sha256 : Bytes → Bytes)

/-- A row's chained code as raw bytes. -/
def macAuditEvent (ev : AuditEvent) (key : Bytes) : Bytes :=
  if key.length = 0 then sha256 (macInput ev key)
  else hmac sha256 64 key (macInput ev key)

/-- The hex text stored in `audit_log.hash`. -/
def hashAuditEvent (ev : AuditEvent) (key : Bytes) : Bytes :=
  Hex.encodeToString (macAuditEvent sha256 ev key)

/-- The row with the hash the store writes for it. -/
def sealRow (ev : AuditEvent) (key : Bytes) : AuditEvent :=
  { ev with hash := hashAuditEvent sha256 ev key }

/-- The `audit_log` table.  Its primary key is `seq`, so a content is a list of
rows in increasing order of `seq`, which is also the order queries ask for. -/
structure AuditLog where
  rows : List AuditEvent
  ordered : rows.Pairwise fun earlier later => earlier.seq < later.seq

namespace AuditLog

def empty : AuditLog :=
  ⟨[], .nil⟩

@[simp]
theorem rows_empty : empty.rows = [] :=
  rfl

variable (log : AuditLog) {before after : List AuditEvent} {row : AuditEvent}

variable {earlier : AuditEvent}

theorem seq_lt_of_before (split : log.rows = before ++ row :: after) (member : earlier ∈ before) :
    earlier.seq < row.seq := by
  have ordered := log.ordered
  rw [split] at ordered
  exact (List.pairwise_append.mp ordered).2.2 earlier member row (by simp)

/-- Rows with lower numbers stand before a row. -/
theorem mem_before (split : log.rows = before ++ row :: after) (member : earlier ∈ log.rows)
    (less : earlier.seq < row.seq) : earlier ∈ before := by
  have ordered := log.ordered
  rw [split] at member ordered
  rcases List.mem_append.mp member with early | late
  · exact early
  rcases List.mem_cons.mp late with rfl | later
  · exact absurd less (lt_irrefl _)
  · have suffix := (List.pairwise_append.mp ordered).2.1
    exact absurd less (lt_asymm ((List.pairwise_cons.mp suffix).1 earlier later))

/-- Before a row, the last one has the greatest number. -/
theorem seq_le_last {init : List AuditEvent} {last : AuditEvent}
    (split : log.rows = (init ++ [last]) ++ after) (member : earlier ∈ init ++ [last]) :
    earlier = last ∨ earlier.seq < last.seq := by
  rcases List.mem_append.mp member with early | isLast
  · have splitAtLast : log.rows = init ++ last :: after := by simpa using split
    exact .inr (log.seq_lt_of_before splitAtLast early)
  · exact .inl (List.mem_singleton.mp isLast)

end AuditLog

/-- The code reads only the covered columns and the key id. -/
theorem macAuditEvent_congr {first second : AuditEvent} (covered : first.covered = second.covered)
    (keyIDs : first.keyID = second.keyID) (key : Bytes) :
    macAuditEvent sha256 first key = macAuditEvent sha256 second key := by
  simp only [AuditEvent.covered, Prod.mk.injEq] at covered
  obtain ⟨seqEq, tsEq, textsEq⟩ := covered
  simp only [macAuditEvent, macInput, seqEq, tsEq, textsEq, keyIDs]

/-- A sealed row's hash decodes to its code. -/
@[simp]
theorem decodeString_sealRow_hash (ev : AuditEvent) (key : Bytes) :
    Hex.decodeString (sealRow sha256 ev key).hash =
      some (macAuditEvent sha256 (sealRow sha256 ev key) key) := by
  have same : macAuditEvent sha256 (sealRow sha256 ev key) key = macAuditEvent sha256 ev key :=
    macAuditEvent_congr sha256 rfl rfl key
  rw [same, sealRow, hashAuditEvent, Hex.decodeString_encodeToString]

theorem genesisHash_ne_of_decodeString {text bytes : Bytes}
    (decoded : Hex.decodeString text = some bytes) : text ≠ genesisHash := by
  intro equal
  subst equal
  exact absurd decoded (by simp [show Hex.decodeString genesisHash = none by decide])

end OmegaPlane.Audit
