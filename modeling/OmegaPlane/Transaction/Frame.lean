import OmegaPlane.Transaction.Program

/-!
# What a program leaves alone

`Writes` bounds the keys a program can change, whatever it is answered.
-/

namespace OmegaPlane.Transaction

variable {ρ κ ε α β : Type} {key : ρ → κ} [DecidableEq κ] {slots : ρ → List κ}

/-- The statement changes rows with keys in `reach` only. -/
def Statement.Writes (key : ρ → κ) (reach : κ → Prop) : Statement ρ κ → Prop
  | .lock _ _ => True
  | .select _ => True
  | .insert row => reach (key row)
  | .upsert row => reach (key row)
  | .insertSelect make => ∀ rows, ∀ row ∈ make rows, reach (key row)
  | .delete wanted => ∀ row, wanted row = true → reach (key row)
  | .update wanted change =>
    ∀ row, wanted row = true → reach (key row) ∧ reach (key (change row))

variable {reach : κ → Prop}

variable {statement : Statement ρ κ}

theorem Statement.reach_of_mem_changes (writes : statement.Writes key reach)
    (began now : Table key) :
    ∀ change ∈ (statement.perform slots began now).changes, reach (change.name key) := by
  intro change member
  cases statement with
  | lock =>
    simp only [Statement.perform] at member
    split at member <;> simp at member
  | select => simp [Statement.perform] at member
  | insert =>
    simp only [Statement.perform] at member
    split at member
    · simp at member
    · obtain rfl := List.mem_singleton.mp member
      exact writes
  | upsert =>
    obtain rfl := List.mem_singleton.mp member
    exact writes
  | insertSelect =>
    simp only [Statement.perform] at member
    split at member
    · simp at member
    · obtain ⟨row, rowMember, rfl⟩ := List.mem_map.mp member
      exact writes _ row rowMember
  | delete =>
    obtain ⟨row, rowMember, rfl⟩ := List.mem_map.mp member
    obtain ⟨_, chosen⟩ := List.mem_filter.mp rowMember
    exact writes row (Bool.and_eq_true_iff.mp chosen).1
  | update =>
    simp only [Statement.perform] at member
    split at member
    · simp at member
    rcases List.mem_append.mp member with removed | written
    · obtain ⟨row, rowMember, rfl⟩ := List.mem_map.mp removed
      obtain ⟨_, chosen⟩ := List.mem_filter.mp rowMember
      exact (writes row (Bool.and_eq_true_iff.mp chosen).1).1
    · obtain ⟨_, newMember, rfl⟩ := List.mem_map.mp written
      obtain ⟨row, rowMember, rfl⟩ := List.mem_map.mp newMember
      obtain ⟨_, chosen⟩ := List.mem_filter.mp rowMember
      exact (writes row (Bool.and_eq_true_iff.mp chosen).1).2

variable {name : κ}

theorem lookup_applyAll_of_reach {changes : List (Change ρ κ)}
    (within : ∀ change ∈ changes, reach (change.name key)) (outside : ¬ reach name)
    (table : Table key) : (Change.applyAll changes table).lookup name = table.lookup name := by
  rw [Change.lookup_applyAll]
  have untouched : Change.pending key changes name = none := by
    refine Change.pending_eq_none_iff.mpr ?_
    rintro change member rfl
    exact outside (within change member)
  rw [untouched]
  rfl

theorem Statement.lookup_exec_of_writes (writes : statement.Writes key reach)
    (outside : ¬ reach name) (table : Table key) :
    (statement.exec slots table).2.lookup name = table.lookup name :=
  lookup_applyAll_of_reach (reach_of_mem_changes writes table table) outside table

namespace Program

/-- Whatever it is answered, the program changes rows with keys in `reach` only. -/
def Writes (key : ρ → κ) (reach : κ → Prop) : Program ρ κ ε α → Prop
  | done _ => True
  | fail _ => True
  | run statement next => statement.Writes key reach ∧ ∀ answer, (next answer).Writes key reach

variable {reach : κ → Prop}

omit [DecidableEq κ] in
theorem Writes.bind {first : Program ρ κ ε α} {next : α → Program ρ κ ε β}
    (firstWrites : first.Writes key reach) (nextWrites : ∀ result, (next result).Writes key reach) :
    (first >>= next).Writes key reach := by
  induction first with
  | done result => exact nextWrites result
  | fail => trivial
  | run statement rest ih => exact ⟨firstWrites.1, fun answer => ih answer (firstWrites.2 answer)⟩

omit [DecidableEq κ] in
theorem writes_guard {condition : Prop} [Decidable condition] {err : ε} :
    (guard condition err : Program ρ κ ε Unit).Writes key reach := by
  unfold guard
  split <;> trivial

omit [DecidableEq κ] in
theorem writes_query {wanted : ρ → Bool} :
    (query wanted : Program ρ κ ε (List ρ)).Writes key reach := by
  refine ⟨trivial, fun answer => ?_⟩
  cases answer <;> trivial

omit [DecidableEq κ] in
theorem writes_attempt {statement : Statement ρ κ} (writes : statement.Writes key reach) :
    (attempt statement : Program ρ κ ε Bool).Writes key reach := by
  refine ⟨writes, fun answer => ?_⟩
  cases answer <;> trivial

variable {program : Program ρ κ ε α} {name : κ}

theorem lookup_exec_of_writes (writes : program.Writes key reach) (outside : ¬ reach name)
    (table : Table key) :
    (program.exec slots table).2.lookup name = table.lookup name := by
  induction program generalizing table with
  | done => rfl
  | fail => rfl
  | run statement next ih =>
    rw [exec_run, ih _ (writes.2 _)]
    exact Statement.lookup_exec_of_writes writes.1 outside table

theorem lookup_transact_of_writes (writes : program.Writes key reach) (outside : ¬ reach name)
    (table : Table key) :
    (program.transact slots table).2.lookup name = table.lookup name := by
  have unchanged : (program.exec slots table).2.lookup name = table.lookup name :=
    lookup_exec_of_writes writes outside table
  unfold transact
  split
  · rename_i finished
    rw [finished] at unchanged
    exact unchanged
  · rfl

end Program

end OmegaPlane.Transaction
