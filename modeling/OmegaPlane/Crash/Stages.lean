import OmegaPlane.Crash.Script
import Mathlib.Order.Monotone.Basic

/-!
# The stages of a procedure

Most operations of a procedure do not show.  What shows goes from stage to stage, and a
procedure that climbs from one stage to the next is at a stage at every point of every
execution, whether it is cut off or not.
-/

namespace OmegaPlane.Crash

variable {σ ο ε : Type} (apply : Int → ο → σ → σ)

/-- Every operation stays at a stage or reaches the next one, and the script ends, successfully
or not, where it may. -/
def Script.Climbs (stage : Nat → σ → Prop) (halt : Bool → Nat → Prop) :
    Script σ ο ε → Nat → σ → Prop
  | .done, n, _ => halt true n
  | .refused _, n, _ => halt false n
  | .perform operation next, n, state => ∀ time, ∃ m, (m = n ∨ m = n + 1) ∧
      stage m (apply time operation state) ∧
      next.Climbs stage halt m (apply time operation state)
  | .clock next, n, state => ∀ time, (next time).Climbs stage halt n state
  | .look next, n, state => (next state).Climbs stage halt n state

variable {apply} {stage : Nat → σ → Prop} {halt : Bool → Nat → Prop}

/-- The stages of an execution. -/
structure Levels (stage : Nat → σ → Prop) (first : Nat) (state : σ) (moments : List (Moment σ ο))
    (level : Nat → Nat) : Prop where
  start : level 0 = first
  rises : ∀ i, level i ≤ level (i + 1)
  steps : ∀ i, level (i + 1) ≤ level i + 1
  shows : ∀ i, stage (level i) (final state (moments.take i))

variable {first : Nat} {state : σ} {moments : List (Moment σ ο)} {level : Nat → Nat}
  {script : Script σ ο ε}

theorem Levels.monotone (levels : Levels stage first state moments level) : Monotone level :=
  monotone_nat_of_le_succ levels.rises

/-- No stage is left out. -/
theorem Levels.exists_level (levels : Levels stage first state moments level) {i m : Nat}
    (from_first : first ≤ m) (upto : m ≤ level i) : ∃ j, level j = m := by
  induction i with
  | zero => exact ⟨0, le_antisymm (levels.start.trans_le from_first) upto⟩
  | succ i ih =>
    rcases Nat.lt_or_ge (level i) m with below | reached
    · exact ⟨i + 1, le_antisymm (by have := levels.steps i; omega) upto⟩
    · exact ih reached

/-- Nothing happens. -/
theorem Levels.still (start : stage first state) :
    Levels stage first state ([] : List (Moment σ ο)) fun _ => first where
  start := rfl
  rises _ := le_rfl
  steps _ := Nat.le_succ _
  shows i := by
    rw [List.take_nil]
    exact start

theorem Script.Climbs.levels (climbs : script.Climbs apply stage halt first state)
    (start : stage first state) (ticks : List Int) :
    ∃ level, Levels stage first state (script.exec apply state ticks) level := by
  induction script generalizing first state ticks with
  | done | refused => exact ⟨_, .still start⟩
  | perform operation next ih =>
    cases ticks with
    | nil => exact ⟨_, .still start⟩
    | cons time ticks =>
    obtain ⟨m, near, shows, climbs⟩ := climbs time
    obtain ⟨level, levels⟩ := ih climbs shows ticks
    have next := levels.start
    refine ⟨fun i => i.casesOn first level, rfl, ?_, ?_, ?_⟩ <;> rintro (_ | i)
    · change first ≤ level 0
      omega
    · exact levels.rises i
    · change level 0 ≤ first + 1
      omega
    · exact levels.steps i
    · exact start
    · exact levels.shows i
  | clock next ih =>
    cases ticks with
    | nil => exact ⟨_, .still start⟩
    | cons time ticks => exact ih time (climbs time) start ticks
  | look next ih => exact ih state climbs start ticks

end OmegaPlane.Crash
