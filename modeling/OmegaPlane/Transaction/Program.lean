import OmegaPlane.Data.Table

/-!
# Transaction programs

A program is a sequence of SQL statements over the rows of a database, each of
which may depend on the answers to the ones before it.  The rows of all tables
are kept in one `Table`, so a key names a row of any of them; the other unique
indexes are entries that a row occupies besides its key.

A statement is described once, by what it answers and changes when it began on
one table and is carried out on another (`Statement.perform`).  A program that
runs alone begins and carries out each of its statements on the same table
(`Program.exec`).
-/

namespace OmegaPlane.Transaction

variable {ρ κ ε α β : Type} {key : ρ → κ} [DecidableEq κ]

/-- The strength of a row lock. -/
inductive LockMode where
  | share
  | update
  deriving DecidableEq

/-- One statement. -/
inductive Statement (ρ κ : Type) where
  /-- `SELECT 1 … FOR SHARE` or `FOR UPDATE` of one row. -/
  | lock (name : κ) (mode : LockMode)
  | select (wanted : ρ → Bool)
  /-- `INSERT`, which answers whether the row was free to insert. -/
  | insert (row : ρ)
  /-- `INSERT … ON CONFLICT DO UPDATE`. -/
  | upsert (row : ρ)
  /-- `INSERT … SELECT`. -/
  | insertSelect (make : List ρ → List ρ)
  | delete (wanted : ρ → Bool)
  | update (wanted : ρ → Bool) (change : ρ → ρ)

inductive Answer (ρ : Type) where
  | rows (found : List ρ)
  | done (changed : Bool)

/-- A change of one row. -/
inductive Change (ρ κ : Type) where
  | put (row : ρ)
  | remove (name : κ)

/-! ## Changes -/

namespace Change

/-- The key of the row that changes. -/
def name (key : ρ → κ) : Change ρ κ → κ
  | put row => key row
  | remove name => name

/-- What a change leaves under the key. -/
def left : Change ρ κ → Option ρ
  | put row => some row
  | remove _ => none

def apply (table : Table key) : Change ρ κ → Table key
  | put row => table.put row
  | remove name => table.delete name

theorem lookup_apply (table : Table key) (change : Change ρ κ) (other : κ) :
    (change.apply table).lookup other =
      if change.name key = other then change.left else table.lookup other := by
  cases change with
  | put row => exact Table.lookup_put table row other
  | remove name =>
  rw [apply, Table.lookup_delete]
  by_cases same : name = other
  · simp [Change.name, left, same]
  · simp [Change.name, same, Ne.symm same]

/-- Apply changes one after the other. -/
def applyAll (changes : List (Change ρ κ)) (table : Table key) : Table key :=
  changes.foldl apply table

/-- What the changes leave under a key, `none` when none of them is about it. -/
def pending (key : ρ → κ) (changes : List (Change ρ κ)) (other : κ) : Option (Option ρ) :=
  (changes.filter fun change => change.name key = other).getLast?.map left

theorem pending_eq_none_iff {changes : List (Change ρ κ)} {other : κ} :
    pending key changes other = none ↔ ∀ change ∈ changes, change.name key ≠ other := by
  simp [pending]

theorem lookup_applyAll (changes : List (Change ρ κ)) (table : Table key) (other : κ) :
    (applyAll changes table).lookup other =
      (pending key changes other).getD (table.lookup other) := by
  induction changes generalizing table with
  | nil => rfl
  | cons change rest ih =>
  have step : applyAll (change :: rest) table = applyAll rest (change.apply table) := rfl
  rw [step, ih, lookup_apply]
  by_cases same : change.name key = other
  · rw [if_pos same, pending, pending, List.filter_cons_of_pos (by simpa using same)]
    cases later : (rest.filter fun change => change.name key = other).getLast? with
    | none => simp [List.getLast?_eq_none_iff.mp later]
    | some => simp [List.getLast?_cons, later]
  · rw [if_neg same, pending, pending, List.filter_cons_of_neg (by simpa using same)]

end Change

/-! ## Statements -/

/-- What a statement answers, changes and locks. -/
structure Outcome (ρ κ : Type) where
  answer : Answer ρ
  changes : List (Change ρ κ) := []
  locks : List (κ × LockMode) := []

section Statement

variable (slots : ρ → List κ)

/-- The entries a row occupies, its key first. -/
def entries (key : ρ → κ) (slots : ρ → List κ) (row : ρ) : List κ :=
  key row :: slots row

/-- Some row occupies an entry that `row` needs. -/
def taken (table : Table key) (row : ρ) : Bool :=
  table.rows.any fun other => (entries key slots other).any fun entry =>
    entry ∈ entries key slots row

def lockEntries (key : ρ → κ) (slots : ρ → List κ) (row : ρ) : List (κ × LockMode) :=
  (entries key slots row).map fun entry => (entry, .update)

/-- The rows a `DELETE` or `UPDATE` is about: those it found when it began that
still satisfy its condition. -/
def victims (began now : Table key) (wanted : ρ → Bool) : List ρ :=
  now.rows.filter fun row => wanted row && (began.lookup (key row)).any wanted

/-- A statement that began on one table and is carried out on another. -/
def Statement.perform (began now : Table key) : Statement ρ κ → Outcome ρ κ
  | .lock name mode =>
    if (began.lookup name).isSome && (now.lookup name).isSome then
      { answer := .done true, locks := [(name, mode)] }
    else
      { answer := .done false }
  | .select wanted => { answer := .rows (began.rows.filter wanted) }
  | .insert row =>
    if taken slots now row then
      { answer := .done false }
    else
      { answer := .done true, changes := [.put row], locks := lockEntries key slots row }
  | .upsert row =>
    { answer := .done true, changes := [.put row], locks := lockEntries key slots row }
  | .insertSelect make =>
    let rows := make began.rows
    if rows.any (taken slots now) then
      { answer := .done false }
    else
      { answer := .done true
        changes := rows.map .put
        locks := rows.flatMap (lockEntries key slots) }
  | .delete wanted =>
    let rows := victims began now wanted
    { answer := .done (rows ≠ [])
      changes := rows.map fun row => .remove (key row)
      locks := rows.flatMap (lockEntries key slots) }
  | .update wanted change =>
    let rows := victims began now wanted
    let others := now.filter fun row => !(wanted row && (began.lookup (key row)).any wanted)
    if (rows.map change).any (taken slots others) then
      { answer := .done false }
    else
      { answer := .done true
        changes := (rows.map fun row => .remove (key row)) ++ (rows.map change).map .put
        locks := (rows ++ rows.map change).flatMap (lockEntries key slots) }

/-- A statement carried out where it began. -/
def Statement.exec (table : Table key) (statement : Statement ρ κ) : Answer ρ × Table key :=
  let outcome := statement.perform slots table table
  (outcome.answer, Change.applyAll outcome.changes table)

variable {slots}

@[simp]
theorem exec_select (table : Table key) (wanted : ρ → Bool) :
    (Statement.select wanted).exec slots table = (.rows (table.rows.filter wanted), table) :=
  rfl

end Statement

/-! ## Programs -/

inductive Program (ρ κ ε α : Type) where
  | done (result : α)
  | fail (err : ε)
  | run (statement : Statement ρ κ) (next : Answer ρ → Program ρ κ ε α)

namespace Program

def bind : Program ρ κ ε α → (α → Program ρ κ ε β) → Program ρ κ ε β
  | done result, next => next result
  | fail err, _ => fail err
  | run statement rest, next => run statement fun answer => (rest answer).bind next

instance : Monad (Program ρ κ ε) where
  pure := done
  bind := bind

omit [DecidableEq κ] in
@[simp]
theorem pure_eq (result : α) : (pure result : Program ρ κ ε α) = done result :=
  rfl

omit [DecidableEq κ] in
@[simp]
theorem done_bind (result : α) (next : α → Program ρ κ ε β) : done result >>= next = next result :=
  rfl

omit [DecidableEq κ] in
@[simp]
theorem fail_bind (err : ε) (next : α → Program ρ κ ε β) : fail err >>= next = fail err :=
  rfl

omit [DecidableEq κ] in
@[simp]
theorem run_bind (statement : Statement ρ κ) (rest : Answer ρ → Program ρ κ ε α)
    (next : α → Program ρ κ ε β) :
    run statement rest >>= next = run statement fun answer => rest answer >>= next :=
  rfl

/-- Perform a statement that answers with rows. -/
def query (wanted : ρ → Bool) : Program ρ κ ε (List ρ) :=
  run (.select wanted) fun
    | .rows found => done found
    | .done _ => done []

/-- Perform a statement that answers whether it did anything. -/
def attempt (statement : Statement ρ κ) : Program ρ κ ε Bool :=
  run statement fun
    | .rows found => done (found ≠ [])
    | .done changed => done changed

/-- Go on only when a condition holds. -/
def guard (condition : Prop) [Decidable condition] (err : ε) : Program ρ κ ε Unit :=
  if condition then done () else fail err

/-- Perform a statement and go on only when it did something. -/
def require (statement : Statement ρ κ) (err : ε) : Program ρ κ ε Unit := do
  let changed ← attempt statement
  guard (changed = true) err

/-- Insert rows one after the other. -/
def insertAll (err : ε) : List ρ → Program ρ κ ε Unit
  | [] => done ()
  | row :: rest => do
    require (.insert row) err
    insertAll err rest

/-! ## Programs that run alone -/

section Exec

variable (slots : ρ → List κ)

def exec : Program ρ κ ε α → Table key → Except ε α × Table key
  | done result, table => (.ok result, table)
  | fail err, table => (.error err, table)
  | run statement next, table =>
    (next (statement.exec slots table).1).exec (statement.exec slots table).2

/-- Run a program in a transaction: whatever fails leaves no trace. -/
def transact (program : Program ρ κ ε α) (table : Table key) : Except ε α × Table key :=
  match program.exec slots table with
  | (.ok result, after) => (.ok result, after)
  | (.error err, _) => (.error err, table)

variable {slots}

@[simp]
theorem exec_done (result : α) (table : Table key) :
    (done result : Program ρ κ ε α).exec slots table = (.ok result, table) :=
  rfl

@[simp]
theorem exec_fail (err : ε) (table : Table key) :
    (fail err : Program ρ κ ε α).exec slots table = (.error err, table) :=
  rfl

variable {table after : Table key}

theorem exec_done_eq_ok {value result : α} :
    (done value : Program ρ κ ε α).exec slots table = (.ok result, after) ↔
      value = result ∧ table = after := by
  simp

theorem exec_run (statement : Statement ρ κ) (next : Answer ρ → Program ρ κ ε α)
    (table : Table key) :
    (run statement next).exec slots table =
      (next (statement.exec slots table).1).exec slots (statement.exec slots table).2 :=
  rfl

/-- A sequence gets through when its parts do. -/
theorem exec_bind_eq_ok {first : Program ρ κ ε α} {next : α → Program ρ κ ε β} {result : β} :
    (first >>= next).exec slots table = (.ok result, after) ↔
      ∃ value between, first.exec slots table = (.ok value, between) ∧
        (next value).exec slots between = (.ok result, after) := by
  induction first generalizing table with
  | done => simp
  | fail => simp
  | run statement rest ih => exact ih _

theorem transact_eq_ok {program : Program ρ κ ε α} {result : α} :
    program.transact slots table = (.ok result, after) ↔
      program.exec slots table = (.ok result, after) := by
  unfold transact
  split <;> rename_i finished <;> simp [finished]

@[simp]
theorem exec_query (wanted : ρ → Bool) (table : Table key) :
    (query wanted : Program ρ κ ε (List ρ)).exec slots table =
      (.ok (table.rows.filter wanted), table) :=
  rfl

end Exec

end Program

end OmegaPlane.Transaction
