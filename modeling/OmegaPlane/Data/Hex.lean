import OmegaPlane.Data.Bytes

/-!
# Hexadecimal text

Encoding writes two lower-case digits for each byte.  Decoding accepts either
letter case, so it inverts the encoder but several texts can stand for the same
bytes; only lower-case text is determined by what it decodes to.
-/

namespace OmegaPlane.Hex

/-- The lower-case digit of a half byte. -/
def digit (n : Nat) : UInt8 :=
  UInt8.ofNat (if n < 10 then 48 + n else 87 + n)

/-- The half byte a digit of either case stands for. -/
def fromHexChar (char : UInt8) : Option Nat :=
  if 48 ≤ char.toNat ∧ char.toNat ≤ 57 then some (char.toNat - 48)
  else if 97 ≤ char.toNat ∧ char.toNat ≤ 102 then some (char.toNat - 87)
  else if 65 ≤ char.toNat ∧ char.toNat ≤ 70 then some (char.toNat - 55)
  else none

/-- Two digits for each byte, high half first. -/
def encodeToString : Bytes → Bytes
  | [] => []
  | byte :: rest =>
    digit (byte.toNat / 16) :: digit (byte.toNat % 16) :: encodeToString rest

/-- Decode pairs of digits; an odd length or any other byte is an error. -/
@[simp]
def decodeString : Bytes → Option Bytes
  | [] => some []
  | [_] => none
  | high :: low :: rest =>
    match fromHexChar high, fromHexChar low, decodeString rest with
    | some h, some l, some tail => some (UInt8.ofNat (h * 16 + l) :: tail)
    | _, _, _ => none

variable {n : Nat} {char : UInt8} {text bytes : Bytes}

theorem fromHexChar_digit (bound : n < 16) : fromHexChar (digit n) = some n := by
  have all : ∀ n < 16, fromHexChar (digit n) = some n := by decide
  exact all n bound

@[simp]
theorem decodeString_encodeToString (bytes : Bytes) :
    decodeString (encodeToString bytes) = some bytes := by
  induction bytes with
  | nil => rfl
  | cons byte rest ih =>
  have bound := byte.toNat_lt
  have high := fromHexChar_digit (n := byte.toNat / 16) (by omega)
  have low := fromHexChar_digit (n := byte.toNat % 16) (by omega)
  have value : byte.toNat / 16 * 16 + byte.toNat % 16 = byte.toNat := by omega
  simp only [encodeToString, decodeString, high, low, ih, value]
  rw [UInt8.ofNat_toNat]

/-- Text that decodes is made of hexadecimal digits only. -/
theorem isSome_fromHexChar_of_mem (decoded : decodeString text = some bytes)
    (member : char ∈ text) : (fromHexChar char).isSome := by
  induction text using decodeString.induct generalizing bytes with
  | case1 => simp at member
  | case2 | case4 => simp at decoded
  | case3 high low rest h l tail tailEq lowEq highEq ih =>
    rcases List.mem_cons.mp member with rfl | member
    · simp [highEq]
    · rcases List.mem_cons.mp member with rfl | member
      · simp [lowEq]
      · exact ih tailEq member

/-- A hex text is ASCII. -/
theorem lt_of_mem (decoded : decodeString text = some bytes) (member : char ∈ text) :
    char < 0x80 := by
  have digit := isSome_fromHexChar_of_mem decoded member
  rw [UInt8.lt_iff_toNat_lt]
  change char.toNat < 128
  unfold fromHexChar at digit
  split at digit
  · omega
  split at digit
  · omega
  · split at digit
    · omega
    · contradiction

/-- A byte that is not a digit cannot occur in text that decodes. -/
theorem notMem_of_decodeString (decoded : decodeString text = some bytes)
    (notDigit : fromHexChar char = none) :
    char ∉ text := by
  intro member
  have := isSome_fromHexChar_of_mem decoded member
  rw [notDigit] at this
  contradiction

/-- No digit is written in upper case. -/
def LowerCase (text : Bytes) : Prop :=
  ∀ char ∈ text, ¬(65 ≤ char.toNat ∧ char.toNat ≤ 70)

instance (text : Bytes) : Decidable (LowerCase text) :=
  inferInstanceAs (Decidable (∀ char ∈ text, ¬(65 ≤ char.toNat ∧ char.toNat ≤ 70)))

/-- The encoder writes lower-case digits. -/
theorem lowerCase_encodeToString (bytes : Bytes) : LowerCase (encodeToString bytes) := by
  have digits : ∀ n < 16, ¬(65 ≤ (digit n).toNat ∧ (digit n).toNat ≤ 70) := by decide
  induction bytes with
  | nil => simp [LowerCase, encodeToString]
  | cons byte rest ih =>
  have bound := byte.toNat_lt
  intro char member
  simp only [encodeToString, List.mem_cons] at member
  rcases member with rfl | rfl | member
  · exact digits _ (by omega)
  · exact digits _ (by omega)
  · exact ih char member

end OmegaPlane.Hex
