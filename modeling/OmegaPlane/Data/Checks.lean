import Mathlib.Tactic.Common

/-!
# Sequences of checks

A function that refuses its input at the first failed check succeeds only when
every check passed.
-/

namespace OmegaPlane

universe u v

variable {ε : Type u} {α : Type v} {refused : Prop} [Decidable refused] {err : ε}
  {rest : Except ε α} {value : α}

/-- A passed check. -/
theorem ite_error_eq_ok :
    (if refused then .error err else rest) = .ok value ↔ ¬ refused ∧ rest = .ok value := by
  by_cases refused <;> simp [*]

/-- A passed check, with the condition stated positively. -/
theorem ite_else_error_eq_ok {passed : Prop} [Decidable passed] :
    (if passed then rest else .error err) = .ok value ↔ passed ∧ rest = .ok value := by
  by_cases passed <;> simp [*]

theorem bind_eq_ok {β : Type v} {first : Except ε β} {next : β → Except ε α} :
    first >>= next = .ok value ↔ ∃ middle, first = .ok middle ∧ next middle = .ok value := by
  cases first with
  | error | ok => simp [bind, Except.bind]

theorem mapError_eq_ok {δ : Type u} {first : Except δ α} {rename : δ → ε} :
    first.mapError rename = .ok value ↔ first = .ok value := by
  cases first <;> simp [Except.mapError]

variable {result : Except ε α}

theorem toOption_eq_some : result.toOption = some value ↔ result = .ok value := by
  cases result <;> simp [Except.toOption]

theorem exists_eq_ok_of_isOk (succeeded : result.isOk = true) : ∃ value, result = .ok value := by
  cases result with
  | error => cases succeeded
  | ok value => exact ⟨value, rfl⟩

end OmegaPlane
