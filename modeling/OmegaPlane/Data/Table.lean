import Mathlib.Data.List.Nodup
import Mathlib.Data.List.Perm.Subperm

/-!
# Tables with a primary key

A table is a list of rows with distinct keys.  A row is found by its key, and
each operation is described by what it does to lookups.
-/

namespace OmegaPlane

universe u v

/-- Rows with distinct keys. -/
structure Table {ρ : Type u} {κ : Type v} (key : ρ → κ) where
  rows : List ρ
  distinct : (rows.map key).Nodup

namespace Table

variable {ρ : Type u} {κ : Type v} {key : ρ → κ}

def empty : Table key :=
  ⟨[], List.nodup_nil⟩

variable [DecidableEq κ]

/-- The row with a key. -/
def lookup (table : Table key) (name : κ) : Option ρ :=
  table.rows.find? fun row => key row = name

variable {table : Table key} {name : κ} {row : ρ}

theorem lookup_eq_some_iff : table.lookup name = some row ↔ row ∈ table.rows ∧ key row = name := by
  constructor
  · intro found
    exact ⟨List.mem_of_find?_eq_some found, by simpa using List.find?_some found⟩
  rintro ⟨member, nameEq⟩
  cases found : table.lookup name with
  | none =>
    have absent := List.find?_eq_none.mp found row member
    exact absurd nameEq (by simpa using absent)
  | some other =>
    have otherMember : other ∈ table.rows := List.mem_of_find?_eq_some found
    have otherName : key other = name := by simpa using List.find?_some found
    rw [List.inj_on_of_nodup_map table.distinct otherMember member (otherName.trans nameEq.symm)]

theorem lookup_eq_none_iff : table.lookup name = none ↔ ∀ row ∈ table.rows, key row ≠ name := by
  simp [lookup]

variable {first second : Table key}

/-- Two tables agree on a key when the same rows carry it. -/
theorem lookup_congr (same : ∀ row, key row = name → (row ∈ first.rows ↔ row ∈ second.rows)) :
    first.lookup name = second.lookup name := by
  apply Option.ext
  intro row
  rw [lookup_eq_some_iff, lookup_eq_some_iff]
  constructor
  · rintro ⟨member, nameEq⟩
    exact ⟨(same row nameEq).mp member, nameEq⟩
  · rintro ⟨member, nameEq⟩
    exact ⟨(same row nameEq).mpr member, nameEq⟩

/-- Insert a row unless its key is taken; the flag says whether it was
inserted. -/
def insert (table : Table key) (row : ρ) : Bool × Table key :=
  match taken : table.lookup (key row) with
  | some _ => (false, table)
  | none =>
    (true,
      { rows := table.rows ++ [row]
        distinct := by
          rw [List.map_append, List.nodup_append]
          refine ⟨table.distinct, by simp, ?_⟩
          intro name member other otherMember equal
          obtain ⟨old, oldMember, rfl⟩ := List.mem_map.mp member
          obtain rfl : other = key row := by simpa using otherMember
          exact lookup_eq_none_iff.mp taken old oldMember equal })

theorem insert_of_none (free : table.lookup (key row) = none) :
    (table.insert row).1 = true ∧ (table.insert row).2.rows = table.rows ++ [row] := by
  unfold insert
  split
  · rename_i other taken
    rw [free] at taken
    contradiction
  · exact ⟨rfl, rfl⟩

variable {other : ρ}

theorem insert_of_some (taken : table.lookup (key row) = some other) :
    table.insert row = (false, table) := by
  unfold insert
  split
  · rfl
  · rename_i free
    rw [free] at taken
    contradiction

theorem lookup_insert_of_none (free : table.lookup (key row) = none) (name : κ) :
    (table.insert row).2.lookup name = if key row = name then some row else table.lookup name := by
  have rowsEq := (insert_of_none free).2
  split
  · rename_i nameEq
    rw [lookup_eq_some_iff, rowsEq]
    exact ⟨by simp, nameEq⟩
  · rename_i nameNe
    apply lookup_congr
    intro other otherName
    rw [rowsEq]
    constructor
    · intro member
      rcases List.mem_append.mp member with old | new
      · exact old
      · rw [List.mem_singleton.mp new] at otherName
        exact absurd otherName nameNe
    · exact List.mem_append_left _

/-- Keep the rows that satisfy a condition. -/
def filter (table : Table key) (keep : ρ → Bool) : Table key where
  rows := table.rows.filter keep
  distinct := table.distinct.sublist (List.filter_sublist.map _)

theorem lookup_filter (table : Table key) (keep : ρ → Bool) (name : κ) :
    (table.filter keep).lookup name = (table.lookup name).filter keep := by
  apply Option.ext
  intro row
  rw [lookup_eq_some_iff, Option.filter_eq_some_iff, lookup_eq_some_iff]
  simp only [filter, List.mem_filter]
  exact and_right_comm

/-- Remove the row with a key. -/
def delete (table : Table key) (name : κ) : Table key :=
  table.filter fun row => key row ≠ name

theorem lookup_delete (table : Table key) (name other : κ) :
    (table.delete name).lookup other = if other = name then none else table.lookup other := by
  rw [delete, lookup_filter]
  cases found : table.lookup other with
  | none => simp
  | some =>
    have otherEq := (lookup_eq_some_iff.mp found).2
    subst otherEq
    simp [Option.filter]

/-- Replace the row that has the key of `row`. -/
def update (table : Table key) (row : ρ) : Table key where
  rows := table.rows.map fun old => if key old = key row then row else old
  distinct := by
    have keysKept : (table.rows.map fun old => if key old = key row then row else old).map key =
        table.rows.map key := by
      rw [List.map_map]
      apply List.map_congr_left
      intro old _
      simp only [Function.comp_apply]
      split
      · rename_i same
        exact same.symm
      · rfl
    rw [keysKept]
    exact table.distinct

theorem lookup_update {old : ρ} (present : table.lookup (key row) = some old) (name : κ) :
    (table.update row).lookup name = if key row = name then some row else table.lookup name := by
  obtain ⟨oldMember, oldKey⟩ := lookup_eq_some_iff.mp present
  split
  · rename_i nameEq
    rw [lookup_eq_some_iff]
    exact ⟨List.mem_map.mpr ⟨old, oldMember, if_pos oldKey⟩, nameEq⟩
  · rename_i nameNe
    apply lookup_congr
    intro other otherName
    constructor
    · intro member
      obtain ⟨source, sourceMember, sourceEq⟩ := List.mem_map.mp member
      split at sourceEq
      · rw [← sourceEq] at otherName
        exact absurd otherName nameNe
      · rw [← sourceEq]
        exact sourceMember
    · intro member
      refine List.mem_map.mpr ⟨other, member, if_neg ?_⟩
      rw [otherName]
      exact fun same => nameNe same.symm

theorem lookup_insert (table : Table key) (row : ρ) (name : κ) :
    (table.insert row).2.lookup name =
      (table.lookup name).or (if key row = name then some row else none) := by
  cases taken : table.lookup (key row) with
  | some other =>
    rw [insert_of_some taken]
    split
    · rename_i same
      rw [← same, taken]
      rfl
    · simp
  | none =>
    rw [lookup_insert_of_none taken]
    split
    · rename_i same
      rw [← same, taken]
      rfl
    · simp

/-- Write a row, in place of the one that has its key. -/
def put (table : Table key) (row : ρ) : Table key :=
  match table.lookup (key row) with
  | some _ => table.update row
  | none => (table.insert row).2

theorem lookup_put (table : Table key) (row : ρ) (name : κ) :
    (table.put row).lookup name = if key row = name then some row else table.lookup name := by
  unfold put
  split
  · rename_i old present
    exact lookup_update present name
  · rename_i free
    exact lookup_insert_of_none free name

theorem mem_rows_iff : row ∈ table.rows ↔ table.lookup (key row) = some row := by
  simp [lookup_eq_some_iff]

theorem mem_put :
    other ∈ (table.put row).rows ↔ other = row ∨ (other ∈ table.rows ∧ key other ≠ key row) := by
  rw [mem_rows_iff, lookup_put]
  by_cases same : key row = key other
  · rw [if_pos same]
    simp [same, eq_comm]
  · rw [if_neg same, ← mem_rows_iff]
    constructor
    · exact fun member => .inr ⟨member, Ne.symm same⟩
    · rintro (rfl | ⟨member, _⟩)
      · exact absurd rfl same
      · exact member

omit [DecidableEq κ] in
theorem eq_of_key_eq (member : row ∈ table.rows) (otherMember : other ∈ table.rows)
    (same : key row = key other) : row = other :=
  List.inj_on_of_nodup_map table.distinct member otherMember same

/-- Write rows one after the other. -/
def putAll (table : Table key) (rows : List ρ) : Table key :=
  rows.foldl put table

/-- The last row written under a key is the one found. -/
theorem lookup_putAll (table : Table key) (rows : List ρ) (name : κ) :
    (table.putAll rows).lookup name =
      ((rows.filter fun row => key row = name).getLast?).or (table.lookup name) := by
  induction rows generalizing table with
  | nil => rfl
  | cons row rest ih =>
  have step : table.putAll (row :: rest) = (table.put row).putAll rest := rfl
  rw [step, ih, lookup_put]
  by_cases same : key row = name
  · rw [if_pos same, List.filter_cons_of_pos (by simpa using same)]
    cases later : (rest.filter fun row => key row = name).getLast? with
    | none => simp [List.getLast?_eq_none_iff.mp later]
    | some => simp [List.getLast?_cons, later]
  · rw [if_neg same, List.filter_cons_of_neg (by simpa using same)]

/-- Only one row of a table has a key. -/
theorem getLast?_filter_rows (table : Table key) (name : κ) :
    (table.rows.filter fun row => key row = name).getLast? = table.lookup name := by
  apply Option.ext
  intro row
  rw [lookup_eq_some_iff]
  constructor
  · intro last
    simpa using List.mem_of_getLast? last
  rintro ⟨member, named⟩
  cases last : (table.rows.filter fun row => key row = name).getLast? with
  | none =>
    have absent := List.filter_eq_nil_iff.mp (List.getLast?_eq_none_iff.mp last) row member
    exact absurd named (by simpa using absent)
  | some found =>
    have kept : found ∈ table.rows ∧ key found = name := by
      simpa using List.mem_of_getLast? last
    rw [eq_of_key_eq kept.1 member (kept.2.trans named.symm)]

/-- The rows of a table win over those of the table they are written to. -/
theorem lookup_putAll_rows (table other : Table key) (name : κ) :
    (table.putAll other.rows).lookup name = (other.lookup name).or (table.lookup name) := by
  rw [lookup_putAll, getLast?_filter_rows]

/-- Rows whose keys are new join those of the table. -/
theorem mem_putAll_of_fresh {rows : List ρ} (apart : (rows.map key).Nodup)
    (fresh : ∀ other ∈ rows, table.lookup (key other) = none) :
    row ∈ (table.putAll rows).rows ↔ row ∈ table.rows ∨ row ∈ rows := by
  induction rows generalizing table with
  | nil => simp [putAll]
  | cons first rest ih =>
  have step : table.putAll (first :: rest) = (table.put first).putAll rest := rfl
  rw [List.map_cons, List.nodup_cons] at apart
  have free := lookup_eq_none_iff.mp (fresh first List.mem_cons_self)
  have restFresh : ∀ other ∈ rest, (table.put first).lookup (key other) = none := by
    intro other member
    have keysDiffer : key first ≠ key other := fun same =>
      apart.1 (same ▸ List.mem_map_of_mem member)
    rw [lookup_put, if_neg keysDiffer]
    exact fresh other (List.mem_cons_of_mem _ member)
  rw [step, ih apart.2 restFresh, mem_put, List.mem_cons]
  constructor
  · rintro ((new | old) | later)
    · exact .inr (.inl new)
    · exact .inl old.1
    · exact .inr (.inr later)
  · rintro (old | new | later)
    · exact .inl (.inr ⟨old, free row old⟩)
    · exact .inl (.inl new)
    · exact .inr later

/-- The tables hold the same rows. -/
def same [DecidableEq ρ] (first second : Table key) : Bool :=
  first.rows.length = second.rows.length ∧
    first.rows.all fun row => second.lookup (key row) = some row

theorem lookup_eq_of_same [DecidableEq ρ] (equal : first.same second = true) (name : κ) :
    first.lookup name = second.lookup name := by
  simp only [same, decide_eq_true_eq, List.all_eq_true] at equal
  obtain ⟨lengths, found⟩ := equal
  have subset : first.rows ⊆ second.rows := fun row member =>
    (lookup_eq_some_iff.mp (found row member)).1
  have perm : first.rows.Perm second.rows :=
    (List.subperm_of_subset first.distinct.of_map subset).perm_of_length_le (Nat.le_of_eq lengths.symm)
  exact lookup_congr fun row _ => perm.mem_iff

/-- Tables in which every key finds the same row hold the same rows. -/
theorem same_of_lookup_eq [DecidableEq ρ] (equal : ∀ name, first.lookup name = second.lookup name) :
    first.same second = true := by
  have included : ∀ {left right : Table key}, (∀ name, left.lookup name = right.lookup name) →
      left.rows ⊆ right.rows := by
    intro left right lookups row member
    have found : left.lookup (key row) = some row := lookup_eq_some_iff.mpr ⟨member, rfl⟩
    rw [lookups] at found
    exact (lookup_eq_some_iff.mp found).1
  have perm : first.rows.Perm second.rows :=
    (List.perm_ext_iff_of_nodup first.distinct.of_map second.distinct.of_map).mpr fun row =>
      ⟨fun member => included equal member, fun member => included (fun name => (equal name).symm) member⟩
  simp only [same, decide_eq_true_eq, List.all_eq_true]
  refine ⟨perm.length_eq, ?_⟩
  intro row member
  rw [← equal]
  exact lookup_eq_some_iff.mpr ⟨member, rfl⟩

end Table

end OmegaPlane
