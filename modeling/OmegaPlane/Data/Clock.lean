import Mathlib.Algebra.Order.Ring.Int
import Mathlib.Data.Rat.Floor
import Mathlib.Tactic.Common

/-!
# Instants and durations

Instants and durations are counted in nanoseconds, instants from the Unix
epoch.  A duration is kept in a signed 64-bit word: its arithmetic wraps, while
the difference of two instants saturates.
-/

namespace OmegaPlane.Clock

def second : Int := 1000000000
def minute : Int := 60 * second
def hour : Int := 60 * minute

def minDuration : Int := -2 ^ 63
def maxDuration : Int := 2 ^ 63 - 1

/-- The signed 64-bit word an integer is reduced to. -/
def wrap64 (n : Int) : Int :=
  (n + 2 ^ 63) % 2 ^ 64 - 2 ^ 63

variable {n bound later earlier seconds instant : Int}

theorem wrap64_of_fits (low : minDuration ≤ n) (high : n ≤ maxDuration) : wrap64 n = n := by
  simp only [minDuration, maxDuration] at low high
  rw [wrap64, Int.emod_eq_of_lt] <;> omega

theorem wrap64_bounds (n : Int) : minDuration ≤ wrap64 n ∧ wrap64 n ≤ maxDuration := by
  simp only [wrap64, minDuration, maxDuration]
  omega

/-- Time from one instant to another, saturated to the range of a duration. -/
def sub (later earlier : Int) : Int :=
  max minDuration (min maxDuration (later - earlier))

/-- Saturation does not show in a comparison with a bound above the least
duration. -/
theorem le_sub_iff (low : minDuration < bound) (high : bound ≤ maxDuration) :
    bound ≤ sub later earlier ↔ bound ≤ later - earlier := by
  simp only [sub]
  omega

/-- Saturation does not show in a comparison with a bound below the greatest
duration. -/
theorem sub_le_iff (low : minDuration ≤ bound) (high : bound < maxDuration) :
    sub later earlier ≤ bound ↔ later - earlier ≤ bound := by
  simp only [sub]
  omega

/-! ## Dates in seconds -/

/-- Seconds from the first instant of the calendar to the Unix epoch. -/
def epochSeconds : Int := 62135596800

/-- The first instant of the calendar, which stands for an absent one. -/
def zeroInstant : Int := -epochSeconds * second

/-- The instant of a Unix date.  Seconds are kept from the first instant of the
calendar, so dates in the last two millennia of the range wrap. -/
def unix (seconds : Int) : Int :=
  (wrap64 (seconds + epochSeconds) - epochSeconds) * second

theorem unix_of_fits (low : minDuration ≤ seconds + epochSeconds)
    (high : seconds + epochSeconds ≤ maxDuration) : unix seconds = seconds * second := by
  rw [unix, wrap64_of_fits low high, add_sub_cancel_right]

/-- Every date is one that did not wrap. -/
theorem exists_unix_eq (seconds : Int) :
    ∃ whole, unix seconds = whole * second ∧ whole + epochSeconds ≤ maxDuration := by
  refine ⟨wrap64 (seconds + epochSeconds) - epochSeconds, rfl, ?_⟩
  rw [sub_add_cancel]
  exact (wrap64_bounds (seconds + epochSeconds)).2

/-- The Unix date of an instant, in whole seconds. -/
def unixSeconds (instant : Int) : Int :=
  instant / second

/-- The 64-bit integer a float is converted to: its integral part, and the
least integer when that is out of range. -/
def int64OfFloat (value : Rat) : Int :=
  let whole := if value < 0 then -⌊-value⌋ else ⌊value⌋
  if minDuration ≤ whole ∧ whole ≤ maxDuration then whole else minDuration

theorem int64OfFloat_intCast (low : minDuration ≤ n) (high : n ≤ maxDuration) :
    int64OfFloat n = n := by
  have whole : (if (n : Rat) < 0 then -⌊-(n : Rat)⌋ else ⌊(n : Rat)⌋) = n := by
    rw [show -(n : Rat) = ((-n : Int) : Rat) by push_cast; rfl, Int.floor_intCast,
      Int.floor_intCast, neg_neg, ite_self]
  rw [int64OfFloat, whole, if_pos ⟨low, high⟩]

/-- The date of an instant less than a second after a whole second. -/
theorem unixSeconds_le_of_lt (before : instant < (seconds + 1) * second) :
    unixSeconds instant ≤ seconds := by
  simp only [unixSeconds, second] at *
  omega

theorem unixSeconds_nonneg (epoch : 0 ≤ instant) : 0 ≤ unixSeconds instant :=
  Int.ediv_nonneg epoch (by decide)

end OmegaPlane.Clock
