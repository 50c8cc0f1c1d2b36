import OmegaPlane.Data.Clock

/-!
# Keys remembered in two generations

Keys are recorded in the current generation.  Once the retention has passed
since the last rotation, the next use of the memory drops the older generation
and starts a new one.  Rotation is lazy, so how long a key is kept depends on
when the memory is used; it is never less than the retention.
-/

namespace OmegaPlane

universe u

/-- Two generations of keys and the instant the current one was started. -/
structure Generations (κ : Type u) where
  cur : List κ
  prev : List κ
  rotated : Int

namespace Generations

variable {κ : Type u} {retention used now later : Int} {memory : Generations κ}

/-- Rotate when the retention has passed. -/
def advance (retention now : Int) (memory : Generations κ) : Generations κ :=
  if retention ≤ Clock.sub now memory.rotated then
    { cur := [], prev := memory.cur, rotated := now }
  else memory

def Seen (memory : Generations κ) (key : κ) : Prop :=
  key ∈ memory.cur ∨ key ∈ memory.prev

instance [DecidableEq κ] (memory : Generations κ) (key : κ) : Decidable (memory.Seen key) :=
  inferInstanceAs (Decidable (_ ∨ _))

def record (memory : Generations κ) (key : κ) : Generations κ :=
  { memory with cur := key :: memory.cur }

/-- While the retention has not passed since its use, a key is in the current
generation, which will be kept for one more, or in the older one, which started
after the use. -/
def Retains (retention : Int) (memory : Generations κ) (key : κ) (used now : Int) : Prop :=
  now ≤ used + retention →
    (key ∈ memory.cur ∧ used < memory.rotated + retention) ∨
      (key ∈ memory.prev ∧ used < memory.rotated)

variable {key : κ}

section

variable (retains : memory.Retains retention key used now)
include retains

theorem Retains.seen (within : now ≤ used + retention) : memory.Seen key := by
  rcases retains within with ⟨member, -⟩ | ⟨member, -⟩
  · exact Or.inl member
  · exact Or.inr member

theorem Retains.mono (le : now ≤ later) : memory.Retains retention key used later :=
  fun within => retains (le.trans within)

/-- A rotation moves a retained key to the older generation, and cannot drop it
before the retention has passed. -/
theorem Retains.advance (le : now ≤ later)
    (low : Clock.minDuration < retention) (high : retention ≤ Clock.maxDuration) :
    (memory.advance retention later).Retains retention key used later := by
  intro within
  have held := retains (le.trans within)
  unfold Generations.advance
  split
  case isTrue due =>
    rw [Clock.le_sub_iff low high] at due
    rcases held with ⟨member, started⟩ | ⟨-, started⟩
    · exact Or.inr ⟨member, by simp only; omega⟩
    · omega
  case isFalse => exact held

theorem Retains.record (other : κ) : (memory.record other).Retains retention key used now := by
  intro within
  rcases retains within with ⟨member, started⟩ | older
  · exact Or.inl ⟨List.mem_cons_of_mem other member, started⟩
  · exact Or.inr older

end

end Generations

end OmegaPlane
