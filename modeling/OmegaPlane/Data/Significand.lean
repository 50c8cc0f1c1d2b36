import Mathlib.Data.Int.Log
import Mathlib.Data.Rat.Floor
import Mathlib.Tactic.Linarith

/-!
# Numbers with few significant bits

A rational number is rounded to the nearest one with the given number of
significant bits, of two to the even one.  The exponent is not bounded.
-/

namespace OmegaPlane

/-- The number is an integer below `2 ^ bits`, scaled by a power of two. -/
def Significant (bits : Nat) (q : Rat) : Prop :=
  ∃ m e : Int, |m| < 2 ^ bits ∧ q = m * 2 ^ e

/-- The nearest integer, the even one of two. -/
def roundEven (q : Rat) : Int :=
  if q - ⌊q⌋ < 1 / 2 ∨ q - ⌊q⌋ = 1 / 2 ∧ ⌊q⌋ % 2 = 0 then ⌊q⌋ else ⌊q⌋ + 1

/-- The distance of two neighbours among the numbers of the size of `q`. -/
def spacing (bits : Nat) (q : Rat) : Rat :=
  2 ^ (Int.log 2 |q| + 1 - bits)

def roundTo (bits : Nat) (q : Rat) : Rat :=
  roundEven (q / spacing bits q) * spacing bits q

variable {bits : Nat} {q : Rat}

theorem roundEven_intCast (n : Int) : roundEven n = n := by
  simp [roundEven]

theorem roundEven_le {n : Int} (le : q ≤ n) : roundEven q ≤ n := by
  unfold roundEven
  split
  · exact Int.floor_le_iff.mpr (by linarith)
  rename_i above
  rw [Int.add_one_le_iff, Int.floor_lt]
  refine lt_of_le_of_ne le fun same => above (.inl ?_)
  rw [same, Int.floor_intCast]
  norm_num

theorem le_roundEven {n : Int} (le : n ≤ q) : n ≤ roundEven q := by
  have floor := Int.le_floor.mpr le
  unfold roundEven
  split <;> omega

theorem spacing_pos : 0 < spacing bits q := by
  unfold spacing
  exact zpow_pos two_pos _

/-- In units of the spacing a number lies within `2 ^ bits`. -/
theorem abs_div_spacing_le : |q / spacing bits q| ≤ 2 ^ bits := by
  have below : |q| < 2 ^ (Int.log 2 |q| + 1) := by
    exact_mod_cast Int.lt_zpow_succ_log_self (b := 2) (by norm_num) |q|
  rw [abs_div, abs_of_pos spacing_pos, div_le_iff₀ spacing_pos, spacing, ← zpow_natCast,
    ← zpow_add₀ two_ne_zero]
  ring_nf at below ⊢
  exact below.le

theorem significant_roundTo (some : 0 < bits) : Significant bits (roundTo bits q) := by
  obtain ⟨lower, upper⟩ := abs_le.mp (@abs_div_spacing_le bits q)
  have least : -2 ^ bits ≤ roundEven (q / spacing bits q) := le_roundEven (by exact_mod_cast lower)
  have most : roundEven (q / spacing bits q) ≤ 2 ^ bits := roundEven_le (by exact_mod_cast upper)
  rcases lt_or_eq_of_le (abs_le.mpr ⟨least, most⟩) with less | full
  · exact ⟨_, _, less, rfl⟩
  -- a power of two needs one bit only
  obtain ⟨sign, unit, same⟩ : ∃ sign : Int, |sign| = 1 ∧
      roundEven (q / spacing bits q) = sign * 2 ^ bits := by
    rcases abs_choice (roundEven (q / spacing bits q)) with positive | negative
    · exact ⟨1, rfl, by rw [one_mul, ← full, positive]⟩
    · exact ⟨-1, rfl, by rw [← full, negative, neg_one_mul, neg_neg]⟩
  refine ⟨sign, bits + (Int.log 2 |q| + 1 - bits), ?_, ?_⟩
  · rw [unit]
    exact one_lt_pow₀ one_lt_two some.ne'
  · rw [roundTo, same, spacing, zpow_add₀ two_ne_zero, zpow_natCast]
    push_cast
    ring

theorem roundTo_eq_self (significant : Significant bits q) : roundTo bits q = q := by
  obtain ⟨m, e, small, scaled⟩ := significant
  by_cases zero : q = 0
  · simp [roundTo, zero, roundEven]
  -- the spacing divides the scale
  have within : |q| < 2 ^ (bits + e) := by
    rw [scaled, abs_mul, abs_of_pos (zpow_pos two_pos e : (0 : Rat) < 2 ^ e),
      zpow_add₀ two_ne_zero, zpow_natCast]
    exact mul_lt_mul_of_pos_right (by exact_mod_cast small) (zpow_pos two_pos e)
  have order : Int.log 2 |q| < bits + e :=
    (Int.lt_zpow_iff_log_lt one_lt_two (abs_pos.mpr zero)).mp (by exact_mod_cast within)
  obtain ⟨n, exponent⟩ : ∃ n : Nat, e = n + (Int.log 2 |q| + 1 - bits) :=
    ⟨(e - (Int.log 2 |q| + 1 - bits)).toNat, by omega⟩
  have whole : q = (m * 2 ^ n : Int) * spacing bits q := by
    push_cast
    rw [spacing, mul_assoc, ← zpow_natCast, ← zpow_add₀ two_ne_zero, ← exponent, ← scaled]
  have units : q / spacing bits q = (m * 2 ^ n : Int) :=
    (div_eq_iff spacing_pos.ne').mpr whole
  rw [roundTo, units, roundEven_intCast, ← whole]

theorem roundTo_eq_self_iff (some : 0 < bits) : roundTo bits q = q ↔ Significant bits q :=
  ⟨fun same => same ▸ significant_roundTo some, roundTo_eq_self⟩

/-- The first whole number that does not fit. -/
theorem roundTo_beyond : roundTo 53 (9007199254740993 : Int) = (9007199254740992 : Int) := by
  decide +kernel

end OmegaPlane
