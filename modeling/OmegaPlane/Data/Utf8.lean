import OmegaPlane.Data.Bytes

/-!
# UTF-8

The well-formed byte sequences of Unicode code points: no overlong forms, no
surrogates and nothing past `U+10FFFF`.
-/

namespace OmegaPlane.Utf8

/-- A continuation byte. -/
def isTail (byte : UInt8) : Bool :=
  0x80 ≤ byte && byte ≤ 0xBF

/-- The length of the well-formed sequence at the start of `text`, if there is
one. -/
def runeLength (text : Bytes) : Option Nat :=
  match text with
  | [] => none
  | b0 :: rest =>
    if b0 < 0x80 then some 1
    else
      match rest with
      | [] => none
      | b1 :: rest =>
        if 0xC2 ≤ b0 && b0 ≤ 0xDF && isTail b1 then some 2
        else
          match rest with
          | [] => none
          | b2 :: rest =>
            if (b0 = 0xE0 && 0xA0 ≤ b1 && b1 ≤ 0xBF && isTail b2) ||
                (0xE1 ≤ b0 && b0 ≤ 0xEC && isTail b1 && isTail b2) ||
                (b0 = 0xED && 0x80 ≤ b1 && b1 ≤ 0x9F && isTail b2) ||
                (0xEE ≤ b0 && b0 ≤ 0xEF && isTail b1 && isTail b2) then some 3
            else
              match rest with
              | [] => none
              | b3 :: _ =>
                if (b0 = 0xF0 && 0x90 ≤ b1 && b1 ≤ 0xBF && isTail b2 && isTail b3) ||
                    (0xF1 ≤ b0 && b0 ≤ 0xF3 && isTail b1 && isTail b2 && isTail b3) ||
                    (b0 = 0xF4 && 0x80 ≤ b1 && b1 ≤ 0x8F && isTail b2 && isTail b3)
                then some 4
                else none

/-- Well-formedness of the bytes after the next `skip` ones, which belong to a
sequence already checked. -/
def validFrom : Nat → Bytes → Bool
  | _, [] => true
  | skip + 1, _ :: rest => validFrom skip rest
  | 0, byte :: rest =>
    match runeLength (byte :: rest) with
    | none => false
    | some length => validFrom (length - 1) rest

/-- The whole text is well formed. -/
def valid (text : Bytes) : Bool :=
  validFrom 0 text

/-- The bytes of a code point. -/
def encodeRune (rune : Nat) : Bytes :=
  if rune < 0x80 then [UInt8.ofNat rune]
  else if rune < 0x800 then [UInt8.ofNat (0xC0 + rune / 64), UInt8.ofNat (0x80 + rune % 64)]
  else if rune < 0x10000 then
    [UInt8.ofNat (0xE0 + rune / 4096), UInt8.ofNat (0x80 + rune / 64 % 64),
      UInt8.ofNat (0x80 + rune % 64)]
  else
    [UInt8.ofNat (0xF0 + rune / 262144), UInt8.ofNat (0x80 + rune / 4096 % 64),
      UInt8.ofNat (0x80 + rune / 64 % 64), UInt8.ofNat (0x80 + rune % 64)]

/-- `U+FFFD`, which stands for a byte that is no part of a character. -/
def replacement : Bytes := encodeRune 0xFFFD

/-- The text after `skip` copied bytes with ill-formed bytes replaced. -/
def scrubFrom : Nat → Bytes → Bytes
  | _, [] => []
  | skip + 1, byte :: rest => byte :: scrubFrom skip rest
  | 0, byte :: rest =>
    match runeLength (byte :: rest) with
    | none => replacement ++ scrubFrom 0 rest
    | some length => byte :: scrubFrom (length - 1) rest

/-- The text with ill-formed bytes replaced. -/
def scrub (text : Bytes) : Bytes :=
  scrubFrom 0 text

variable {byte : UInt8} {rest text : Bytes} {length skip : Nat}

private theorem cons_of_take {other : Bytes} {count : Nat}
    (same : other.take (count + 1) = byte :: rest) : ∃ tail, other = byte :: tail := by
  cases other with
  | nil => simp at same
  | cons head tail => exact ⟨tail, congrArg (· :: tail) (List.cons.inj same).1⟩

/-- The bytes of a character after its first are continuation bytes. -/
theorem runeLength_tail {other : UInt8} (found : runeLength (byte :: rest) = some length)
    (member : other ∈ rest.take (length - 1)) :
    isTail other = true := by
  -- the ranges of the second byte are within those of continuation bytes
  have low : ∀ b : UInt8, 0xA0 ≤ b ∨ 0x90 ≤ b → 0x80 ≤ b := fun b le =>
    le.elim (UInt8.le_trans (by decide)) (UInt8.le_trans (by decide))
  have high : ∀ b : UInt8, b ≤ 0x9F ∨ b ≤ 0x8F → b ≤ 0xBF := fun b le =>
    le.elim (UInt8.le_trans · (by decide)) (UInt8.le_trans · (by decide))
  simp only [runeLength] at found
  split at found
  · cases found
    simp at member
  split at found
  · cases found
  rename_i b1 rest
  split at found
  · rename_i double
    cases found
    simp [isTail] at member double ⊢
    exact member ▸ double.2
  · split at found
    · cases found
    · rename_i b2 rest
      split at found
      · rename_i triple
        cases found
        simp [isTail] at member triple ⊢
        grind
      · split at found
        · cases found
        · rename_i b3 rest
          split at found
          · rename_i quadruple
            cases found
            simp [isTail] at member quadruple ⊢
            grind
          · cases found

/-- A character lies within the text and is found wherever its bytes stand. -/
theorem runeLength_spec (found : runeLength text = some length) :
    0 < length ∧ length ≤ text.length ∧
      ∀ other : Bytes, other.take length = text.take length → runeLength other = some length := by
  unfold runeLength at found
  split at found
  · contradiction
  rename_i b0 rest
  split at found
  · rename_i single
    obtain rfl := Option.some.inj found
    refine ⟨by decide, by simp, ?_⟩
    intro other same
    obtain ⟨tail, rfl⟩ := cons_of_take same
    simp [runeLength, single]
  · rename_i multi
    split at found
    · contradiction
    rename_i b1 rest
    split at found
    · rename_i double
      obtain rfl := Option.some.inj found
      refine ⟨by decide, by simp, ?_⟩
      intro other same
      obtain ⟨tail, rfl⟩ := cons_of_take same
      obtain ⟨tail, rfl⟩ := cons_of_take (List.cons.inj same).2
      simp [runeLength, multi, double]
    · rename_i notDouble
      split at found
      · contradiction
      rename_i b2 rest
      split at found
      · rename_i triple
        obtain rfl := Option.some.inj found
        refine ⟨by decide, by simp, ?_⟩
        intro other same
        obtain ⟨tail, rfl⟩ := cons_of_take same
        obtain ⟨tail, rfl⟩ := cons_of_take (List.cons.inj same).2
        obtain ⟨tail, rfl⟩ := cons_of_take (List.cons.inj (List.cons.inj same).2).2
        simp only [runeLength]
        rw [if_neg multi, if_neg notDouble, if_pos triple]
      · rename_i notTriple
        split at found
        · contradiction
        rename_i b3 rest
        split at found
        · rename_i quadruple
          obtain rfl := Option.some.inj found
          refine ⟨by decide, by simp, ?_⟩
          intro other same
          obtain ⟨tail, rfl⟩ := cons_of_take same
          obtain ⟨tail, rfl⟩ := cons_of_take (List.cons.inj same).2
          obtain ⟨tail, rfl⟩ := cons_of_take (List.cons.inj (List.cons.inj same).2).2
          obtain ⟨tail, rfl⟩ :=
            cons_of_take (List.cons.inj (List.cons.inj (List.cons.inj same).2).2).2
          rw [runeLength, if_neg multi, if_neg notDouble, if_neg notTriple, if_pos quadruple]
        · contradiction

theorem scrubFrom_of_validFrom (wellFormed : validFrom skip text = true) :
    scrubFrom skip text = text := by
  induction text generalizing skip with
  | nil => rfl
  | cons byte rest ih =>
  cases skip with
  | succ => exact congrArg (byte :: ·) (ih wellFormed)
  | zero =>
  simp only [validFrom] at wellFormed
  simp only [scrubFrom]
  cases found : runeLength (byte :: rest) with
  | none => simp [found] at wellFormed
  | some =>
    simp only [found] at wellFormed
    exact congrArg (byte :: ·) (ih wellFormed)

/-- Well-formed text is left as it is. -/
theorem scrub_of_valid (wellFormed : valid text = true) : scrub text = text :=
  scrubFrom_of_validFrom wellFormed

theorem validFrom_of_ascii (small : ∀ byte ∈ text, byte < 0x80) : validFrom 0 text = true := by
  induction text with
  | nil => rfl
  | cons byte rest ih =>
  have single : runeLength (byte :: rest) = some 1 := by
    simp [runeLength, small byte (by simp)]
  simp only [validFrom, single]
  exact ih fun other member => small other (by simp [member])

theorem take_scrubFrom (within : skip ≤ text.length) :
    (scrubFrom skip text).take skip = text.take skip := by
  induction skip generalizing text with
  | zero => simp
  | succ skip ih =>
  cases text with
  | nil => simp at within
  | cons =>
    rw [scrubFrom, List.take_succ_cons, List.take_succ_cons, ih (Nat.succ_le_succ_iff.mp within)]

example : valid (ascii "a" ++ [0xE2, 0x82, 0xAC]) = true := by decide

example : valid [0xED, 0xA0, 0x80] = false := by decide

end OmegaPlane.Utf8
