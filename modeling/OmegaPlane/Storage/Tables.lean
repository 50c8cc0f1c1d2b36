import OmegaPlane.Audit.Verify
import OmegaPlane.Data.Table
import OmegaPlane.Data.Utf8

/-!
# The database tables

The tables the audit chain and the stored policies live in.  Each carries its
primary key as an invariant; the sequence column of `audit_log` is drawn from a
generator that never gives out a number twice.
-/

namespace OmegaPlane.Storage

open Audit Chain

/-- The backing SQL dialect. -/
inductive Driver where
  | sqlite
  | postgres
  deriving DecidableEq

/-- The texts a `TEXT` column or parameter takes. -/
def Driver.acceptsText : Driver → Bytes → Bool
  | .sqlite, _ => true
  | .postgres, text => Utf8.valid text && !text.contains 0

/-! ## `audit_log` -/

/-- The audit table with its sequence generator. -/
structure AuditTable extends AuditLog where
  nextSeq : Int
  started : 0 < nextSeq
  assigned : ∀ row ∈ rows, 0 < row.seq ∧ row.seq < nextSeq

namespace AuditTable

def empty : AuditTable where
  toAuditLog := .empty
  nextSeq := 1
  started := by decide
  assigned := by simp

/-- Insert a row under a fresh number.  Numbers drawn by transactions that
rolled back leave a gap. -/
def insert (table : AuditTable) (gap : Nat) (row : AuditEvent) : Int × AuditTable :=
  (table.nextSeq + gap,
    { rows := table.rows ++ [{ row with seq := table.nextSeq + gap }]
      ordered := by
        rw [List.pairwise_append]
        refine ⟨table.ordered, List.pairwise_singleton _ _, ?_⟩
        intro earlier member later laterMember
        rw [List.mem_singleton.mp laterMember]
        have bound := (table.assigned earlier member).2
        simp only
        omega
      nextSeq := table.nextSeq + gap + 1
      started := by
        have positive := table.started
        omega
      assigned := by
        have positive := table.started
        intro member membership
        rcases List.mem_append.mp membership with old | new
        · have bounds := table.assigned member old
          omega
        · rw [List.mem_singleton.mp new]
          simp only
          omega })

/-- Replace the hash of the row numbered `seq`. -/
def setHash (table : AuditTable) (seq : Int) (hash : Bytes) : AuditTable where
  rows := table.rows.map fun row => if row.seq = seq then { row with hash := hash } else row
  ordered := by
    rw [List.pairwise_map]
    apply table.ordered.imp
    intro earlier later less
    split <;> split <;> exact less
  nextSeq := table.nextSeq
  started := table.started
  assigned := by
    intro row member
    obtain ⟨old, oldMember, rfl⟩ := List.mem_map.mp member
    have bounds := table.assigned old oldMember
    split <;> exact bounds

/-- The hash of the last row, if there is one. -/
def lastHash (table : AuditTable) : Option Bytes :=
  table.rows.getLast?.map AuditEvent.hash

/-- Inserting a row and setting the hash under its number appends it. -/
theorem rows_setHash_insert (table : AuditTable) (gap : Nat) (row : AuditEvent) (hash : Bytes) :
    ((table.insert gap row).2.setHash (table.insert gap row).1 hash).rows =
      table.rows ++ [{ row with seq := table.nextSeq + gap, hash := hash }] := by
  simp only [insert, setHash, List.map_append, List.map_cons, List.map_nil, if_true,
    List.append_cancel_right_eq]
  -- no earlier row has the fresh number
  have untouched : ∀ old ∈ table.rows,
      (if old.seq = table.nextSeq + gap then { old with hash := hash } else old) = old := by
    intro old member
    have bound := (table.assigned old member).2
    rw [if_neg (by omega)]
  exact (List.map_congr_left untouched).trans (List.map_id' _)

end AuditTable

/-! ## The other tables -/

/-- A row of `audit_once`: a remembered key with the digest of the event
recorded under it. -/
structure OnceRow where
  key : Bytes
  digest : Bytes
  createdAt : Int
  deriving DecidableEq

/-- A row of `policies`: a stored policy document.  `Digest` is not a column,
every read computes it from the text. -/
structure Policy where
  id : Bytes
  text : Bytes
  version : Int
  createdBy : Bytes
  createdAt : Int
  updatedBy : Bytes
  updatedAt : Int
  deriving DecidableEq

/-- The database.  `keyedFromSeq` is the one row of `audit_meta` the store
uses; `provisioned` stands for the SCIM and group tables. -/
structure Db (σ : Type) where
  driver : Driver
  auditLog : AuditTable
  keyedFromSeq : Option Int
  auditOnce : Table OnceRow.key
  policies : Table Policy.id
  provisioned : σ

/-- A fresh database. -/
def Db.empty {σ : Type} (driver : Driver) (provisioned : σ) : Db σ where
  driver := driver
  auditLog := .empty
  keyedFromSeq := none
  auditOnce := .empty
  policies := .empty
  provisioned := provisioned

/-- The database takes every one of the texts as a parameter. -/
def Db.acceptsTexts {σ : Type} (texts : List Bytes) (db : Db σ) : Bool :=
  texts.all db.driver.acceptsText

end OmegaPlane.Storage
