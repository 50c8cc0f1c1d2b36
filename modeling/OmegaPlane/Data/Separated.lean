import Mathlib.Algebra.GroupWithZero.Nat
import Mathlib.Data.List.Count
import Mathlib.Data.List.Basic

/-!
# Fields joined by a separator

A list of fields is written as one word by putting a separator between
consecutive fields, with no escaping.  Splitting such a word back is
unambiguous exactly when no field contains the separator, or when there is at
most one field.  The statements are over an arbitrary alphabet.
-/

namespace OmegaPlane.Separated

universe u

variable {α : Type u} [DecidableEq α]

/-- Join fields with one separator symbol between consecutive fields. -/
def join (sep : α) (fields : List (List α)) : List α :=
  List.intercalate [sep] fields

variable {sep : α}

omit [DecidableEq α] in
/-- The first separator ends the text before it. -/
theorem eq_of_first_sep {first second firstRest secondRest : List α} (firstPlain : sep ∉ first)
    (secondPlain : sep ∉ second) (same : first ++ sep :: firstRest = second ++ sep :: secondRest) :
    first = second ∧ firstRest = secondRest := by
  rcases List.append_eq_append_iff.mp same with ⟨more, rfl, rest⟩ | ⟨more, rfl, rest⟩
  · cases more with
    | nil => simpa using rest
    | cons =>
      obtain ⟨rfl, -⟩ := List.cons.inj rest
      simp at secondPlain
  · cases more with
    | nil => simpa using rest.symm
    | cons =>
      obtain ⟨rfl, -⟩ := List.cons.inj rest
      simp at firstPlain

omit [DecidableEq α] in
@[simp]
theorem join_singleton (sep : α) (field : List α) : join sep [field] = field := by
  simp [join, List.intercalate]

omit [DecidableEq α] in
@[simp]
theorem join_cons_cons (sep : α) (first second : List α) (rest : List (List α)) :
    join sep (first :: second :: rest) = first ++ sep :: join sep (second :: rest) := by
  simp [join, List.intercalate]

omit [DecidableEq α] in
/-- Joining two non-empty lists of fields puts one separator between their
joins. -/
theorem join_append (sep : α) {first second : List (List α)}
    (firstNonempty : first ≠ []) (secondNonempty : second ≠ []) :
    join sep (first ++ second) = join sep first ++ sep :: join sep second := by
  induction first with
  | nil => contradiction
  | cons field rest ih =>
  cases rest with
  | nil =>
    cases second with
    | nil => contradiction
    | cons => simp
  | cons =>
    have tailJoin := ih (by simp)
    simp only [List.cons_append] at tailJoin ⊢
    rw [join_cons_cons, join_cons_cons, tailJoin]
    simp

/-- The joined word holds the separators of the fields and one between each
two neighbours. -/
theorem count_join (sep : α) (first : List α) (rest : List (List α)) :
    (join sep (first :: rest)).count sep =
      rest.length + ((first :: rest).map (List.count sep)).sum := by
  induction rest generalizing first with
  | nil => simp
  | cons second rest ih =>
    rw [join_cons_cons, List.count_append, List.count_cons_self, ih]
    simp only [List.length_cons, List.map_cons, List.sum_cons]
    omega

variable {fields : List (List α)}

private theorem sep_notMem_of_count (none : (fields.map (List.count sep)).sum = 0) :
    ∀ field ∈ fields, sep ∉ field := by
  intro field member
  have zero := List.sum_eq_zero_iff_forall_eq_nat.mp none (field.count sep)
    (List.mem_map_of_mem member)
  exact List.count_eq_zero.mp zero

private theorem count_eq_zero_of_sep_notMem (absent : ∀ field ∈ fields, sep ∉ field) :
    (fields.map (List.count sep)).sum = 0 := by
  apply List.sum_eq_zero_iff_forall_eq_nat.mpr
  intro count member
  obtain ⟨field, fieldMember, rfl⟩ := List.mem_map.mp member
  exact List.count_eq_zero.mpr (absent field fieldMember)

/-- Separator-free fields are recovered from the joined word: any other list
of as many fields with the same join is the same list. -/
theorem eq_of_join_eq {others : List (List α)} (absent : ∀ field ∈ fields, sep ∉ field)
    (lengthEq : others.length = fields.length) (joinEq : join sep others = join sep fields) :
    others = fields := by
  cases fields with
  | nil => simpa using lengthEq
  | cons first rest =>
  cases others with
  | nil => simp at lengthEq
  | cons other others =>
  have counts := congrArg (List.count sep) joinEq
  rw [count_join, count_join, count_eq_zero_of_sep_notMem absent] at counts
  have otherAbsent : ∀ field ∈ other :: others, sep ∉ field := by
    apply sep_notMem_of_count
    simp only [List.length_cons] at lengthEq
    omega
  -- Both lists are what splitting the common word at the separator yields.
  calc other :: others = (join sep (other :: others)).splitOn sep :=
      (List.splitOn_intercalate sep otherAbsent (by simp)).symm
    _ = (join sep (first :: rest)).splitOn sep := by rw [joinEq]
    _ = first :: rest := List.splitOn_intercalate sep absent (by simp)

omit [DecidableEq α] in
/-- A separator inside one of several fields can be traded for the boundary
next to it, which gives a different list with the same join. -/
theorem exists_other_of_sep_mem (several : 2 ≤ fields.length) {field : List α}
    (member : field ∈ fields) (present : sep ∈ field) :
    ∃ others, others.length = fields.length ∧ others ≠ fields ∧
      join sep others = join sep fields := by
  induction fields with
  | nil => simp at member
  | cons first rest ih =>
  cases rest with
  | nil => simp at several
  | cons second rest =>
  rcases List.mem_cons.mp member with rfl | laterMember
  · -- the boundary moves left, to the separator inside the first field
    obtain ⟨before, after, split⟩ := List.append_of_mem present
    refine ⟨before :: (after ++ sep :: second) :: rest, by simp, ?_, ?_⟩
    · rw [split]
      simp
    · cases rest <;> simp [split]
  · rcases List.mem_cons.mp laterMember with rfl | deeper
    · -- the boundary moves right, into the second field
      obtain ⟨before, after, split⟩ := List.append_of_mem present
      refine ⟨(first ++ sep :: before) :: after :: rest, by simp, ?_, ?_⟩
      · simp
      · cases rest <;> simp [split]
    · have restSeveral : 2 ≤ (second :: rest).length := by
        have := List.length_pos_of_mem deeper
        simp only [List.length_cons]
        omega
      obtain ⟨others, lengthEq, different, joinEq⟩ :=
        ih restSeveral laterMember
      refine ⟨first :: others, by simp [lengthEq], ?_, ?_⟩
      · intro equal
        exact different (List.cons.inj equal).2
      · cases others with
        | nil => simp at lengthEq
        | cons => rw [join_cons_cons, join_cons_cons, joinEq]

end OmegaPlane.Separated
