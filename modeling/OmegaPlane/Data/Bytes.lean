import Mathlib.Data.Nat.Digits.Lemmas

/-!
# Byte strings and decimal integers

A string is a finite sequence of bytes, not necessarily valid UTF-8, as in the
modelled language.  Integers are written in base ten with a leading minus sign
for negative values.
-/

namespace OmegaPlane

/-- A byte string. -/
abbrev Bytes := List UInt8

instance : LawfulBEq Bytes :=
  List.instLawfulBEq

/-- The bytes of a string literal that holds ASCII characters only. -/
def ascii (text : String) : Bytes :=
  text.toList.map fun char => UInt8.ofNat char.toNat

/-- The byte of a decimal digit. -/
def digitByte (digit : Nat) : UInt8 :=
  UInt8.ofNat (48 + digit)

/-- Decimal digits of a natural number, most significant first. -/
def natDecimal (n : Nat) : Bytes :=
  if n = 0 then [digitByte 0] else (Nat.digits 10 n).reverse.map digitByte

/-- Decimal form of an integer. -/
def decimal (n : Int) : Bytes :=
  if n < 0 then 45 :: natDecimal n.natAbs else natDecimal n.natAbs

theorem digitByte_inj {first second : Nat} (firstLt : first < 10) (secondLt : second < 10)
    (equal : digitByte first = digitByte second) : first = second := by
  have values := congrArg UInt8.toNat equal
  simp only [digitByte, UInt8.toNat_ofNat'] at values
  omega

private theorem map_digitByte_inj {first second : List Nat}
    (firstDigits : ∀ digit ∈ first, digit < 10)
    (secondDigits : ∀ digit ∈ second, digit < 10)
    (equal : first.map digitByte = second.map digitByte) : first = second := by
  induction first generalizing second with
  | nil => simpa using equal
  | cons digit first ih =>
  cases second with
  | nil => simp at equal
  | cons other =>
  simp only [List.map_cons, List.cons.injEq] at equal
  have headEq := digitByte_inj (firstDigits digit (by simp)) (secondDigits other (by simp)) equal.1
  have tailEq := ih (fun d member => firstDigits d (by simp [member]))
    (fun d member => secondDigits d (by simp [member])) equal.2
  rw [headEq, tailEq]

private theorem reverse_digits_lt (n : Nat) : ∀ digit ∈ (Nat.digits 10 n).reverse, digit < 10 := by
  intro digit member
  exact Nat.digits_lt_base (by decide) (List.mem_reverse.mp member)

variable {n : Nat} {byte : UInt8}

private theorem digits_reverse_ne_zero (positive : n ≠ 0) : (Nat.digits 10 n).reverse ≠ [0] := by
  intro equal
  have digitsEq : Nat.digits 10 n = [0] := by
    simpa using congrArg List.reverse equal
  apply positive
  have value := Nat.ofDigits_digits 10 n
  rw [digitsEq] at value
  simpa using value.symm

theorem natDecimal_injective : Function.Injective natDecimal := by
  intro first second equal
  unfold natDecimal at equal
  by_cases firstZero : first = 0
  · by_cases secondZero : second = 0
    · rw [firstZero, secondZero]
    · rw [if_pos firstZero, if_neg secondZero] at equal
      have digitsEq : [0] = (Nat.digits 10 second).reverse :=
        map_digitByte_inj (by simp) (reverse_digits_lt second) equal
      exact absurd digitsEq.symm (digits_reverse_ne_zero secondZero)
  · by_cases secondZero : second = 0
    · rw [if_neg firstZero, if_pos secondZero] at equal
      have digitsEq : (Nat.digits 10 first).reverse = [0] :=
        map_digitByte_inj (reverse_digits_lt first) (by simp) equal
      exact absurd digitsEq (digits_reverse_ne_zero firstZero)
    · rw [if_neg firstZero, if_neg secondZero] at equal
      have digitsEq := map_digitByte_inj (reverse_digits_lt first) (reverse_digits_lt second) equal
      exact Nat.digits.injective 10 (List.reverse_injective digitsEq)

/-- Every byte of a decimal natural number is a digit. -/
theorem natDecimal_mem (member : byte ∈ natDecimal n) : 48 ≤ byte.toNat ∧ byte.toNat < 58 := by
  have digitRange : ∀ digit < 10, 48 ≤ (digitByte digit).toNat ∧ (digitByte digit).toNat < 58 := by
    decide
  unfold natDecimal at member
  split at member
  · rw [List.mem_singleton.mp member]
    exact digitRange 0 (by decide)
  · obtain ⟨digit, digitMember, rfl⟩ := List.mem_map.mp member
    exact digitRange digit (reverse_digits_lt n digit digitMember)

/-- Every byte of a decimal integer is a digit or the minus sign. -/
theorem decimal_mem {n : Int} (member : byte ∈ decimal n) :
    byte = 45 ∨ (48 ≤ byte.toNat ∧ byte.toNat < 58) := by
  unfold decimal at member
  split at member
  · rcases List.mem_cons.mp member with sign | digits
    · exact .inl sign
    · exact .inr (natDecimal_mem digits)
  · exact .inr (natDecimal_mem member)

private theorem natDecimal_ne_minus_cons (n : Nat) (rest : Bytes) : natDecimal n ≠ 45 :: rest := by
  intro equal
  have member : 45 ∈ natDecimal n := by simp [equal]
  have range := natDecimal_mem member
  exact absurd range.1 (by decide)

/-- Different integers have different decimal forms. -/
theorem decimal_injective : Function.Injective decimal := by
  intro first second equal
  unfold decimal at equal
  split at equal <;> split at equal
  · have absEq := natDecimal_injective (List.cons.inj equal).2
    omega
  · exact absurd equal.symm (natDecimal_ne_minus_cons _ _)
  · exact absurd equal (natDecimal_ne_minus_cons _ _)
  · have absEq := natDecimal_injective equal
    omega

example : decimal (-120) = ascii "-120" := by decide

end OmegaPlane
