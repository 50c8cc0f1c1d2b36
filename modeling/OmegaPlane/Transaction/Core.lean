import Mathlib.Data.List.Basic

/-!
# Transactions that may fail at any statement

A transaction body is a sequence of statements over a database.  The database
may refuse any one of them, which ends the body, and may refuse the commit or
lose its answer.  `Yields` says what holds of the result and the database
whenever a body gets through; its rules follow the shape of a body.
-/

namespace OmegaPlane.Transaction

universe u

variable {δ ε α β : Type u} {db : δ} {post : α → δ → Prop} {result : α} {failure : ε}
  {admits : δ → Bool}

/-- An open transaction: its view of the database and the number of statements
that still succeed, `none` when no statement fails. -/
structure Session (δ : Type u) where
  db : δ
  budget : Option Nat

/-- A transaction body. -/
abbrev Tx (δ ε : Type u) := StateT (Session δ) (Except ε)

/-- One statement.  It fails when the budget is used up or when the database
does not admit its arguments. -/
def exec (failure : ε) (admits : δ → Bool) (run : δ → α × δ) : Tx δ ε α := fun session =>
  match session.budget with
  | some 0 => .error failure
  | budget =>
    if admits session.db then
      .ok ((run session.db).1, ⟨(run session.db).2, budget.map Nat.pred⟩)
    else
      .error failure

/-- How a body ends when no statement failed. -/
inductive Ending (α : Type u) where
  | commit (result : α)
  | rollback (result : α)

/-- What becomes of a commit: done, refused, or done with the answer lost. -/
inductive CommitOutcome where
  | acknowledged
  | refused
  | unacknowledged
  deriving DecidableEq

/-- What the database does to one transaction. -/
structure Faults where
  begins : Bool
  budget : Option Nat
  commit : CommitOutcome
  deriving DecidableEq

/-- The database that fails nowhere. -/
def Faults.none : Faults :=
  ⟨true, Option.none, .acknowledged⟩

/-- Run a body in a transaction.  Whatever does not commit leaves the database
as it was. -/
def transact (beginFailure commitFailure : ε) (faults : Faults) (db : δ)
    (body : Tx δ ε (Ending α)) : δ × Except ε (Ending α) :=
  if faults.begins then
    match body ⟨db, faults.budget⟩ with
    | .error err => (db, .error err)
    | .ok (.rollback result, _) => (db, .ok (.rollback result))
    | .ok (.commit result, session) =>
      match faults.commit with
      | .acknowledged => (session.db, .ok (.commit result))
      | .refused => (db, .error commitFailure)
      | .unacknowledged => (session.db, .error commitFailure)
  else
    (db, .error beginFailure)

/-- Whenever the body gets through from `db`, the result and the database
satisfy `post`. -/
def Yields (body : Tx δ ε α) (db : δ) (post : α → δ → Prop) : Prop :=
  ∀ budget result session, body ⟨db, budget⟩ = .ok (result, session) → post result session.db

theorem yields_pure (holds : post result db) : Yields (pure result : Tx δ ε α) db post := by
  rintro budget result' session finished
  obtain ⟨rfl, rfl⟩ := Prod.mk.inj (Except.ok.inj finished)
  exact holds

theorem yields_throw {err : ε} : Yields (throw err : Tx δ ε α) db post := by
  rintro budget result session finished
  cases finished

variable {run : δ → α × δ} {first : Tx δ ε α} {middle : α → δ → Prop}

theorem yields_exec : Yields (exec failure admits run) db fun result db' =>
      admits db = true ∧ result = (run db).1 ∧ db' = (run db).2 := by
  rintro budget result session finished
  unfold exec at finished
  split at finished
  · cases finished
  split at finished
  · rename_i admitted
    obtain ⟨rfl, rfl⟩ := Prod.mk.inj (Except.ok.inj finished)
    exact ⟨admitted, rfl, rfl⟩
  · cases finished

variable {next : α → Tx δ ε β} {body : Tx δ ε (Ending α)}

theorem yields_bind {post : β → δ → Prop} (firstYields : Yields first db middle)
    (nextYields : ∀ result db', middle result db' → Yields (next result) db' post) :
    Yields (first >>= next) db post := by
  rintro budget result session finished
  cases firstRun : first ⟨db, budget⟩ with
  | error => simp [bind, StateT.bind, Except.bind, firstRun] at finished
  | ok reached =>
    obtain ⟨value, session'⟩ := reached
    simp only [bind, StateT.bind, Except.bind, firstRun] at finished
    exact nextYields value session'.db (firstYields budget value session' firstRun)
      session'.budget result session finished

theorem Yields.mono {body : Tx δ ε α} {post' : α → δ → Prop} (yields : Yields body db post)
    (weaker : ∀ result db', post result db' → post' result db') : Yields body db post' :=
  fun budget result session finished =>
    weaker result session.db (yields budget result session finished)

/-- All a transaction can do: leave the database as it was, without reporting a
commit, or install what a body that got through left. -/
theorem transact_cases (beginFailure commitFailure : ε) (faults : Faults)
    {post : Ending α → δ → Prop} (yields : Yields body db post) :
    (∃ err, transact beginFailure commitFailure faults db body = (db, .error err)) ∨
      (∃ result db', post (.rollback result) db' ∧
        transact beginFailure commitFailure faults db body = (db, .ok (.rollback result))) ∨
      ∃ result db', post (.commit result) db' ∧
        ((faults.commit = .acknowledged ∧
            transact beginFailure commitFailure faults db body =
              (db', .ok (.commit result))) ∨
          (faults.commit = .unacknowledged ∧
            transact beginFailure commitFailure faults db body =
              (db', .error commitFailure))) := by
  unfold transact
  split
  · cases run : body ⟨db, faults.budget⟩ with
    | error err => exact .inl ⟨err, rfl⟩
    | ok reached =>
      obtain ⟨ending, session⟩ := reached
      have holds := yields faults.budget ending session run
      cases ending with
      | rollback result => exact .inr (.inl ⟨result, session.db, holds, rfl⟩)
      | commit result =>
      cases outcome : faults.commit with
      | acknowledged => exact .inr (.inr ⟨result, session.db, holds, .inl ⟨rfl, rfl⟩⟩)
      | refused => exact .inl ⟨commitFailure, rfl⟩
      | unacknowledged => exact .inr (.inr ⟨result, session.db, holds, .inr ⟨rfl, rfl⟩⟩)
  · exact .inl ⟨beginFailure, rfl⟩

/-! ## Bodies that get through -/

/-- On a database that fails nowhere the body gets through from `db`, and the
result and the database satisfy `post`. -/
def Runs (body : Tx δ ε α) (db : δ) (post : α → δ → Prop) : Prop :=
  ∃ result db', body ⟨db, none⟩ = .ok (result, ⟨db', none⟩) ∧ post result db'

theorem runs_pure (holds : post result db) : Runs (pure result : Tx δ ε α) db post :=
  ⟨result, db, rfl, holds⟩

theorem runs_exec (admitted : admits db = true) :
    Runs (exec failure admits run) db fun result db' =>
      result = (run db).1 ∧ db' = (run db).2 := by
  refine ⟨(run db).1, (run db).2, ?_, rfl, rfl⟩
  simp [exec, admitted]

theorem runs_bind {post : β → δ → Prop} (firstRuns : Runs first db middle)
    (nextRuns : ∀ result db', middle result db' → Runs (next result) db' post) :
    Runs (first >>= next) db post := by
  obtain ⟨value, db', firstRun, holds⟩ := firstRuns
  obtain ⟨result, db'', nextRun, ends⟩ := nextRuns value db' holds
  refine ⟨result, db'', ?_, ends⟩
  simp [bind, StateT.bind, Except.bind, firstRun, nextRun]

/-- A body that gets through ends the transaction as it says. -/
theorem transact_of_runs (beginFailure commitFailure : ε) {post : Ending α → δ → Prop}
    (runs : Runs body db post) :
    ∃ ending db', post ending db' ∧
      ((∃ result, ending = .commit result ∧
          transact beginFailure commitFailure .none db body = (db', .ok (.commit result))) ∨
        ∃ result, ending = .rollback result ∧
          transact beginFailure commitFailure .none db body = (db, .ok (.rollback result))) := by
  obtain ⟨ending, db', run, holds⟩ := runs
  refine ⟨ending, db', holds, ?_⟩
  cases ending with
  | commit result => exact .inl ⟨result, rfl, by simp [transact, Faults.none, run]⟩
  | rollback result => exact .inr ⟨result, rfl, by simp [transact, Faults.none, run]⟩

/-- A first statement whose arguments the database does not admit ends the
transaction without a trace. -/
theorem transact_of_refused {beginFailure commitFailure : ε} {faults : Faults}
    {next : α → Tx δ ε (Ending β)} (refused : admits db = false) :
    ∃ err, transact beginFailure commitFailure faults db (exec failure admits run >>= next) =
      (db, .error err) := by
  have failed : (exec failure admits run >>= next) ⟨db, faults.budget⟩ = .error failure := by
    simp only [bind, StateT.bind, Except.bind, exec]
    cases faults.budget with
    | none => simp [refused]
    | some budget => cases budget <;> simp [refused]
  unfold transact
  split
  · rw [failed]
    exact ⟨failure, rfl⟩
  · exact ⟨beginFailure, rfl⟩

end OmegaPlane.Transaction
