import Mathlib.Data.List.TakeWhile
import OmegaPlane.Data.Json
import OmegaPlane.Data.Text

/-!
# Reading JSON texts

The texts `encoding/json` accepts and what they are decoded to: white space
between the tokens, escapes with surrogate pairs, ill-formed UTF-8 replaced, and
at most ten thousand levels of nesting.  An encoded document is read back.
-/

namespace OmegaPlane.Json

/-- A decoded document.  A number is its literal. -/
inductive Doc where
  | null
  | bool (value : Bool)
  | number (literal : Bytes)
  | str (text : Bytes)
  | arr (items : List Doc)
  | obj (fields : List (Bytes × Doc))

/-! ## Strings -/

/-- Four hex digits. -/
def getu4 : Bytes → Option Nat
  | a :: b :: c :: d :: _ =>
    match Hex.fromHexChar a, Hex.fromHexChar b, Hex.fromHexChar c, Hex.fromHexChar d with
    | some a, some b, some c, some d => some (((a * 16 + b) * 16 + c) * 16 + d)
    | _, _, _, _ => none
  | _ => none

/-- The code point of a surrogate pair: `high` with the escape that follows. -/
def surrogatePair (high : Nat) : Bytes → Option Nat
  | 92 :: 117 :: rest =>
    match getu4 rest with
    | none => none
    | some low =>
      if high < 0xDC00 ∧ 0xDC00 ≤ low ∧ low < 0xE000 then
        some (0x10000 + (high - 0xD800) * 1024 + (low - 0xDC00))
      else none
  | _ => none

/-- What the escape after a backslash stands for and how many bytes it has. -/
def escaped : Bytes → Option (Bytes × Nat)
  | [] => none
  | byte :: rest =>
    if byte = 34 ∨ byte = 92 ∨ byte = 47 then some ([byte], 1)
    else if byte = 98 then some ([8], 1)
    else if byte = 102 then some ([12], 1)
    else if byte = 110 then some ([10], 1)
    else if byte = 114 then some ([13], 1)
    else if byte = 116 then some ([9], 1)
    else if byte = 117 then
      match getu4 rest with
      | none => none
      | some unit =>
        if 0xD800 ≤ unit ∧ unit < 0xE000 then
          match surrogatePair unit (rest.drop 4) with
          | some rune => some (Utf8.encodeRune rune, 11)
          | none => some (Utf8.replacement, 5)
        else some (Utf8.encodeRune unit, 5)
    else none

/-- Put decoded bytes in front of what follows. -/
def emit (bytes : Bytes) (rest : Option (Bytes × Bytes)) : Option (Bytes × Bytes) :=
  rest.map fun decoded => (bytes ++ decoded.1, decoded.2)

/-- Read a string up to its closing quote; the next `skip` bytes belong to a
character or escape already decoded. -/
def unquote : Nat → Bytes → Option (Bytes × Bytes)
  | _, [] => none
  | skip + 1, _ :: rest => unquote skip rest
  | 0, byte :: rest =>
    if byte = 34 then some ([], rest)
    else if byte = 92 then
      match escaped rest with
      | none => none
      | some (bytes, width) => emit bytes (unquote width rest)
    else if byte < 32 then none
    else
      match Utf8.runeLength (byte :: rest) with
      | none => emit Utf8.replacement (unquote 0 rest)
      | some length => emit ((byte :: rest).take length) (unquote (length - 1) rest)

/-! ## Numbers and words -/

def isDigit (byte : UInt8) : Bool :=
  48 ≤ byte && byte ≤ 57

/-- The text after a non-empty run of digits. -/
def digits : Bytes → Option Bytes
  | [] => none
  | byte :: rest => if isDigit byte then some (rest.dropWhile isDigit) else none

/-- The text after a whole number without leading zeros. -/
def wholeNumber : Bytes → Option Bytes
  | 48 :: rest => some rest
  | text => digits text

/-- The text after a fraction, if there is one. -/
def fraction : Bytes → Option Bytes
  | 46 :: rest => digits rest
  | text => some text

/-- The text after an exponent, if there is one. -/
def exponent : Bytes → Option Bytes
  | [] => some []
  | byte :: rest =>
    if byte = 101 ∨ byte = 69 then
      match rest with
      | 43 :: rest => digits rest
      | 45 :: rest => digits rest
      | rest => digits rest
    else some (byte :: rest)

/-- The text after a number. -/
def numberEnd : Bytes → Option Bytes
  | 45 :: rest => (wholeNumber rest).bind fun rest => (fraction rest).bind exponent
  | text => (wholeNumber text).bind fun rest => (fraction rest).bind exponent

/-- Read a word or a number. -/
def scalar (text : Bytes) : Option (Doc × Bytes) :=
  if Text.hasPrefix text (ascii "null") then some (.null, text.drop 4)
  else if Text.hasPrefix text (ascii "true") then some (.bool true, text.drop 4)
  else if Text.hasPrefix text (ascii "false") then some (.bool false, text.drop 5)
  else
    (numberEnd text).map fun rest => (.number (text.take (text.length - rest.length)), rest)

/-! ## Documents -/

@[simp]
def skipSpace : Bytes → Bytes
  | [] => []
  | byte :: rest =>
    if byte = 32 ∨ byte = 9 ∨ byte = 10 ∨ byte = 13 then skipSpace rest else byte :: rest

mutual

/-- Read a value that may nest `depth` levels. -/
def value : Nat → Nat → Bytes → Option (Doc × Bytes)
  | 0, _, _ => none
  | fuel + 1, depth, text =>
    match text with
    | 34 :: rest => (unquote 0 rest).map fun decoded => (.str decoded.1, decoded.2)
    | 91 :: rest =>
      match depth with
      | 0 => none
      | depth + 1 =>
        match skipSpace rest with
        | 93 :: rest => some (.arr [], rest)
        | rest => (items fuel depth rest).map fun decoded => (.arr decoded.1, decoded.2)
    | 123 :: rest =>
      match depth with
      | 0 => none
      | depth + 1 =>
        match skipSpace rest with
        | 125 :: rest => some (.obj [], rest)
        | rest => (fields fuel depth rest).map fun decoded => (.obj decoded.1, decoded.2)
    | text => scalar text

/-- Read the items of an array up to its end. -/
def items : Nat → Nat → Bytes → Option (List Doc × Bytes)
  | 0, _, _ => none
  | fuel + 1, depth, text =>
    match value fuel depth text with
    | none => none
    | some (item, rest) =>
      match skipSpace rest with
      | 44 :: rest =>
        (items fuel depth (skipSpace rest)).map fun decoded =>
          (item :: decoded.1, decoded.2)
      | 93 :: rest => some ([item], rest)
      | _ => none

/-- Read the fields of an object up to its end. -/
def fields : Nat → Nat → Bytes → Option (List (Bytes × Doc) × Bytes)
  | 0, _, _ => none
  | fuel + 1, depth, text =>
    match text with
    | 34 :: rest =>
      match unquote 0 rest with
      | none => none
      | some (name, rest) =>
        match skipSpace rest with
        | 58 :: rest =>
          match value fuel depth (skipSpace rest) with
          | none => none
          | some (field, rest) =>
            match skipSpace rest with
            | 44 :: rest =>
              (fields fuel depth (skipSpace rest)).map fun decoded =>
                ((name, field) :: decoded.1, decoded.2)
            | 125 :: rest => some ([(name, field)], rest)
            | _ => none
        | _ => none
    | _ => none

end

def maxNestingDepth : Nat := 10000

/-- Read a whole text. -/
def decode (text : Bytes) : Option Doc :=
  match value (text.length + 1) maxNestingDepth (skipSpace text) with
  | none => none
  | some (doc, rest) => if skipSpace rest = [] then some doc else none

/-! ## Decoding into a string field -/

/-- The name with letters folded to upper case, as far as it can make a name
equal to an ASCII one: only the long s and the Kelvin sign fold to ASCII
letters. -/
def foldName : Bytes → Bytes
  | [] => []
  | 0xC5 :: 0xBF :: rest => 83 :: foldName rest
  | 0xE2 :: 0x84 :: 0xAA :: rest => 75 :: foldName rest
  | byte :: rest => (if 97 ≤ byte ∧ byte ≤ 122 then byte - 32 else byte) :: foldName rest

/-- Set the string field `name` from the fields of an object: the last one
counts, a null is passed over, and any other type is an error. -/
def stringField (name : Bytes) : Bytes → List (Bytes × Doc) → Option Bytes
  | current, [] => some current
  | current, (key, field) :: rest =>
    if foldName key = foldName name then
      match field with
      | .str text => stringField name text rest
      | .null => stringField name current rest
      | _ => none
    else stringField name current rest

/-- Decode a text into a struct with the one string field `name`. -/
def unmarshalString (name text : Bytes) : Option Bytes :=
  match decode text with
  | some (.obj fields) => stringField name [] fields
  | some .null => some []
  | _ => none

example : unmarshalString (ascii "name")
    (ascii " \x7b \"x\" : [1.5e3, null], \"Name\":\"\\u0061\\ud83d\\ude00\" \x7d") =
      some (ascii "a" ++ [0xF0, 0x9F, 0x98, 0x80]) := by decide +kernel

example : unmarshalString (ascii "name") (ascii "\x7b\"name\":\"a\",\x7d") = none := by decide +kernel

/-! ## Reading back a string -/

variable {text tail rest more : Bytes} {skip n fuel levels : Nat} {byte first : UInt8}
  {read : List Doc} {item : Doc}

theorem take_quoteFrom (within : skip ≤ text.length) :
    (quoteFrom skip text).take skip = text.take skip := by
  induction skip generalizing text with
  | zero => simp
  | succ skip ih =>
  cases text with
  | nil => simp at within
  | cons =>
    rw [quoteFrom, List.take_succ_cons, List.take_succ_cons, ih (Nat.succ_le_succ_iff.mp within)]

theorem take_quoteFrom_append (within : skip ≤ text.length) (tail : Bytes) :
    (quoteFrom skip text ++ tail).take skip = text.take skip := by
  have copied := take_quoteFrom within
  have long : skip ≤ (quoteFrom skip text).length := by
    have lengths := congrArg List.length copied
    simp only [List.length_take] at lengths
    omega
  rw [List.take_append_of_le_length long, copied]

private theorem plain_of_large (large : ¬byte < 0x80) : byte ≠ 34 ∧ byte ≠ 92 ∧ ¬byte < 32 := by
  refine ⟨?_, ?_, ?_⟩
  · rintro rfl
    exact large (by decide)
  · rintro rfl
    exact large (by decide)
  · intro control
    exact large (UInt8.lt_trans control (show (32 : UInt8) < 0x80 by decide))

/-- An escape is read as what it stands for. -/
theorem unquote_escaped {bytes : Bytes} {width : Nat} (read : escaped text = some (bytes, width)) :
    unquote 0 (92 :: text) = emit bytes (unquote width text) := by
  simp [unquote, read]

/-- A character is read as it stands. -/
theorem unquote_rune {length : Nat} (plain : byte ≠ 34 ∧ byte ≠ 92 ∧ ¬byte < 32)
    (found : Utf8.runeLength (byte :: text) = some length) :
    unquote 0 (byte :: text) = emit ((byte :: text).take length) (unquote (length - 1) text) := by
  simp [unquote, plain, found]

/-- The four digits written for a character below `0x80`. -/
private theorem escaped_small (small : byte < 0x80) (rest : Bytes) :
    escaped (117 :: 48 :: 48 :: Hex.digit (byte.toNat / 16) :: Hex.digit (byte.toNat % 16) ::
      rest) = some ([byte], 5) := by
  have below : byte.toNat < 0x80 := small
  have high := Hex.fromHexChar_digit (n := byte.toNat / 16) (by omega)
  have low := Hex.fromHexChar_digit (n := byte.toNat % 16) (by omega)
  have zero : Hex.fromHexChar 48 = some 0 := by decide
  have value : ((0 * 16 + 0) * 16 + byte.toNat / 16) * 16 + byte.toNat % 16 = byte.toNat := by
    omega
  have notSurrogate : ¬(0xD800 ≤ byte.toNat ∧ byte.toNat < 0xE000) := by omega
  simp only [escaped, getu4, high, low, zero, value, if_neg notSurrogate]
  simp [Utf8.encodeRune, below]

/-- An escaped character is read back. -/
theorem unquote_escape (small : byte < 0x80) (rest : Bytes) :
    unquote 0 (escape byte ++ rest) = emit [byte] (unquote 0 rest) := by
  by_cases named : byte = 34 ∨ byte = 92 ∨ byte = 8 ∨ byte = 12 ∨ byte = 10 ∨ byte = 13 ∨ byte = 9
  · rcases named with rfl | rfl | rfl | rfl | rfl | rfl | rfl <;> rfl
  simp only [not_or] at named
  obtain ⟨notQuote, notBackslash, others⟩ := named
  simp only [escape, notQuote, notBackslash, others, or_self, if_false]
  split
  · exact unquote_escaped (escaped_small small rest)
  rename_i plain
  simp only [not_or] at plain
  have single : Utf8.runeLength (byte :: rest) = some 1 := by
    simp [Utf8.runeLength, small]
  exact unquote_rune ⟨notQuote, notBackslash, plain.1⟩ single

/-- What is written for a text is read back as the text, with ill-formed bytes
replaced. -/
theorem unquote_quoteFrom (skip : Nat) (text tail : Bytes) (within : skip ≤ text.length) :
    unquote skip (quoteFrom skip text ++ 34 :: tail) =
      some ((Utf8.scrubFrom skip text).drop skip, tail) := by
  fun_induction quoteFrom skip text with
  | case1 skip =>
    obtain rfl : skip = 0 := by simpa using within
    rfl
  | case2 skip byte rest ih => exact ih (Nat.succ_le_succ_iff.mp within)
  | case3 rest ih =>
    have read : unquote 0 (ascii "\\u2028" ++ quoteFrom 0 rest ++ 34 :: tail) =
        emit [0xE2, 0x80, 0xA8] (unquote 0 (quoteFrom 0 rest ++ 34 :: tail)) := rfl
    rw [read, ih (Nat.zero_le _)]
    rfl
  | case4 rest ih =>
    have read : unquote 0 (ascii "\\u2029" ++ quoteFrom 0 rest ++ 34 :: tail) =
        emit [0xE2, 0x80, 0xA9] (unquote 0 (quoteFrom 0 rest ++ 34 :: tail)) := rfl
    rw [read, ih (Nat.zero_le _)]
    rfl
  | case5 byte rest _ _ small ih =>
    have single : Utf8.runeLength (byte :: rest) = some 1 := by
      simp [Utf8.runeLength, small]
    rw [List.append_assoc, unquote_escape small, ih (Nat.zero_le _)]
    simp [emit, Utf8.scrubFrom, single]
  | case6 byte rest _ _ _ illFormed ih =>
    have read : unquote 0 (ascii "\\ufffd" ++ quoteFrom 0 rest ++ 34 :: tail) =
        emit Utf8.replacement (unquote 0 (quoteFrom 0 rest ++ 34 :: tail)) := rfl
    rw [read, ih (Nat.zero_le _)]
    simp [emit, Utf8.scrubFrom, illFormed]
  | case7 byte rest _ _ large length found ih =>
    obtain ⟨positive, lengthLe, anywhere⟩ := Utf8.runeLength_spec found
    obtain ⟨width, rfl⟩ : ∃ width, length = width + 1 := ⟨length - 1, by omega⟩
    rw [Nat.add_sub_cancel] at ih ⊢
    have inner : width ≤ rest.length := Nat.succ_le_succ_iff.mp lengthLe
    -- the bytes of the character are copied, so it is found again
    have copied : (byte :: (quoteFrom width rest ++ 34 :: tail)).take (width + 1) =
        (byte :: rest).take (width + 1) := by
      rw [List.take_succ_cons, List.take_succ_cons, take_quoteFrom_append inner]
    rw [List.cons_append, unquote_rune (plain_of_large large) (anywhere _ copied), copied,
      Nat.add_sub_cancel, ih inner]
    simp only [emit, Option.map_some, Utf8.scrubFrom, found, List.take_succ_cons,
      List.drop_zero, Nat.add_sub_cancel, List.cons_append]
    rw [← Utf8.take_scrubFrom inner, List.take_append_drop]

/-- A string literal is read back. -/
theorem unquote_quote (text tail : Bytes) :
    unquote 0 (quoteFrom 0 text ++ 34 :: tail) = some (Utf8.scrub text, tail) :=
  unquote_quoteFrom 0 text tail (Nat.zero_le _)

/-! ## Reading back a number -/

/-- A number ends before the text: it starts with no digit, point or exponent. -/
def EndsNumber (text : Bytes) : Prop :=
  ∀ byte ∈ text.head?, isDigit byte = false ∧ byte ≠ 46 ∧ byte ≠ 101 ∧ byte ≠ 69

theorem isDigit_of_mem_natDecimal (member : byte ∈ natDecimal n) : isDigit byte = true := by
  obtain ⟨atLeast, below⟩ := natDecimal_mem member
  have lower : (48 : UInt8) ≤ byte := atLeast
  have upper : byte ≤ (57 : UInt8) := Nat.le_of_lt_succ below
  simp [isDigit, lower, upper]

theorem dropWhile_digits {run : Bytes} (digitRun : ∀ byte ∈ run, isDigit byte = true)
    (ends : EndsNumber tail) : (run ++ tail).dropWhile isDigit = tail := by
  rw [List.dropWhile_append_of_pos digitRun]
  cases tail with
  | nil => rfl
  | cons byte =>
    have notDigit := (ends byte (by simp)).1
    simp [notDigit]

theorem fraction_of_ends (ends : EndsNumber tail) : fraction tail = some tail := by
  unfold fraction
  split
  · rename_i rest
    exact absurd rfl (ends 46 (by simp)).2.1
  · rfl

theorem exponent_of_ends (ends : EndsNumber tail) : exponent tail = some tail := by
  cases tail with
  | nil => rfl
  | cons byte =>
    have notExponent := (ends byte (by simp)).2.2
    simp [exponent, notExponent]

/-- A positive number starts with a digit that is not zero. -/
theorem natDecimal_head (positive : n ≠ 0) :
    ∃ first rest, natDecimal n = first :: rest ∧ first ≠ 48 := by
  rcases List.eq_nil_or_concat (Nat.digits 10 n) with empty | ⟨init, last, split⟩
  · exact absurd (Nat.digits_eq_nil_iff_eq_zero.mp empty) positive
  rw [List.concat_eq_append] at split
  refine ⟨digitByte last, init.reverse.map digitByte, ?_, ?_⟩
  · rw [natDecimal, if_neg positive, split]
    simp
  have lastDigit : last < 10 := by
    have member : last ∈ Nat.digits 10 n := by simp [split]
    exact Nat.digits_lt_base (by decide) member
  have lastNe : last ≠ 0 := by
    have leading := Nat.getLast_digit_ne_zero 10 positive
    simpa [split] using leading
  intro zero
  exact lastNe (digitByte_inj lastDigit (by decide) zero)

theorem natDecimal_ne_nil (n : Nat) : natDecimal n ≠ [] := by
  by_cases zero : n = 0
  · subst zero
    decide
  · obtain ⟨first, rest, written, -⟩ := natDecimal_head zero
    simp [written]

/-- An integer starts with a sign or a digit. -/
theorem decimal_head (n : Int) :
    ∃ first rest, decimal n = first :: rest ∧
      (first = 45 ∨ (48 ≤ first.toNat ∧ first.toNat < 58)) := by
  have nonempty : decimal n ≠ [] := by
    unfold decimal
    split
    · exact List.cons_ne_nil _ _
    · exact natDecimal_ne_nil _
  obtain ⟨first, rest, written⟩ := List.exists_cons_of_ne_nil nonempty
  exact ⟨first, rest, written, decimal_mem (n := n) (by rw [written]; simp)⟩

theorem wholeNumber_natDecimal (n : Nat) (ends : EndsNumber tail) :
    wholeNumber (natDecimal n ++ tail) = some tail := by
  by_cases zero : n = 0
  · subst zero
    rfl
  obtain ⟨first, rest, written, notZero⟩ := natDecimal_head zero
  have digitRun : ∀ byte ∈ first :: rest, isDigit byte = true := fun byte member =>
    isDigit_of_mem_natDecimal (written ▸ member)
  rw [written, List.cons_append]
  have firstDigit := digitRun first (by simp)
  have restRun : ∀ byte ∈ rest, isDigit byte = true := fun byte member =>
    digitRun byte (by simp [member])
  simp [wholeNumber, notZero, digits, firstDigit, dropWhile_digits restRun ends]

theorem numberEnd_decimal (n : Int) (ends : EndsNumber tail) :
    numberEnd (decimal n ++ tail) = some tail := by
  have tailRead : (fraction tail).bind exponent = some tail := by
    rw [fraction_of_ends ends]
    exact exponent_of_ends ends
  have whole := wholeNumber_natDecimal n.natAbs ends
  unfold decimal
  split
  · simp [numberEnd, whole, tailRead]
  cases written : natDecimal n.natAbs with
  | nil => exact absurd written (natDecimal_ne_nil _)
  | cons first =>
  have notMinus : first ≠ 45 := by
    rintro rfl
    have member : 45 ∈ natDecimal n.natAbs := by simp [written]
    exact absurd (isDigit_of_mem_natDecimal member) (by decide)
  rw [written] at whole
  simp only [List.cons_append] at whole ⊢
  simp [numberEnd, notMinus, whole, tailRead]

private theorem not_hasPrefix_word {word : Bytes} (different : first ≠ byte)
    (head : word.head? = some byte) :
    ¬Text.hasPrefix (first :: rest) word = true := by
  cases word with
  | nil => simp at head
  | cons other =>
    obtain rfl : other = byte := by simpa using head
    simp [Text.hasPrefix, List.isPrefixOf, different.symm]

theorem scalar_decimal (n : Int) (ends : EndsNumber tail) :
    scalar (decimal n ++ tail) = some (.number (decimal n), tail) := by
  obtain ⟨first, rest, written, range⟩ := decimal_head n
  have notWord : first ≠ 110 ∧ first ≠ 116 ∧ first ≠ 102 := by
    refine ⟨?_, ?_, ?_⟩ <;> rintro rfl <;> exact absurd range (by decide)
  have read := numberEnd_decimal n ends
  have taken : (decimal n ++ tail).take ((decimal n ++ tail).length - tail.length) = decimal n := by
    simp
  unfold scalar
  rw [if_neg, if_neg, if_neg, read]
  · simp only [Option.map_some, taken]
  · rw [written]
    exact not_hasPrefix_word notWord.2.2 rfl
  · rw [written]
    exact not_hasPrefix_word notWord.2.1 rfl
  · rw [written]
    exact not_hasPrefix_word notWord.1 rfl

/-! ## Reading back a document -/

mutual

/-- What an encoded document is decoded to. -/
def toDoc : Json → Doc
  | .null => .null
  | .bool value => .bool value
  | .int value => .number (decimal value)
  | .str text => .str (Utf8.scrub text)
  | .arr items => .arr (toDocItems items)
  | .obj fields => .obj (toDocFields fields)

def toDocItems : List Json → List Doc
  | [] => []
  | item :: rest => toDoc item :: toDocItems rest

def toDocFields : List (Bytes × Json) → List (Bytes × Doc)
  | [] => []
  | (name, field) :: rest => (Utf8.scrub name, toDoc field) :: toDocFields rest

end

mutual

/-- The levels of nesting. -/
def depth : Json → Nat
  | .arr items => depthItems items + 1
  | .obj fields => depthFields fields + 1
  | _ => 0

def depthItems : List Json → Nat
  | [] => 0
  | item :: rest => max (depth item) (depthItems rest)

def depthFields : List (Bytes × Json) → Nat
  | [] => 0
  | (_, field) :: rest => max (depth field) (depthFields rest)

end

theorem endsNumber_cons (ends : isDigit byte = false ∧ byte ≠ 46 ∧ byte ≠ 101 ∧ byte ≠ 69) :
    EndsNumber (byte :: tail) := by
  simpa [EndsNumber] using ends

theorem endsNumber_nil : EndsNumber [] := by
  simp [EndsNumber]

/-- A byte a value can start with: no white space and no closing bracket. -/
def StartsValue (byte : UInt8) : Prop :=
  ¬(byte = 32 ∨ byte = 9 ∨ byte = 10 ∨ byte = 13) ∧ byte ≠ 93

instance : DecidablePred StartsValue := fun byte =>
  inferInstanceAs (Decidable (¬(byte = 32 ∨ byte = 9 ∨ byte = 10 ∨ byte = 13) ∧ byte ≠ 93))

theorem encode_head (doc : Json) :
    ∃ first rest, encode doc = first :: rest ∧ StartsValue first := by
  cases doc with
  | null | str | arr | obj => exact ⟨_, _, rfl, by decide⟩
  | bool value => cases value <;> exact ⟨_, _, rfl, by decide⟩
  | int value =>
    obtain ⟨first, rest, written, range⟩ := decimal_head value
    refine ⟨first, rest, written, ?_, ?_⟩
    · rintro (rfl | rfl | rfl | rfl) <;> exact absurd range (by decide)
    · rintro rfl
      exact absurd range (by decide)

theorem encodeItems_head (first : Json) (rest : List Json) (tail : Bytes) :
    ∃ head others, encodeItems (first :: rest) ++ tail = head :: others ∧ StartsValue head := by
  obtain ⟨head, others, written, starts⟩ := encode_head first
  cases rest with
  | nil => exact ⟨head, others ++ tail, by rw [encodeItems, written]; rfl, starts⟩
  | cons => exact ⟨head, _, by rw [encodeItems, written]; rfl, starts⟩

@[simp]
theorem skipSpace_encode (doc : Json) (tail : Bytes) :
    skipSpace (encode doc ++ tail) = encode doc ++ tail := by
  obtain ⟨first, rest, written, starts⟩ := encode_head doc
  rw [written, List.cons_append, skipSpace, if_neg starts.1]

/-- The word or number at the start of a text that opens no string, array or
object. -/
theorem value_scalar (plain : first ≠ 34 ∧ first ≠ 91 ∧ first ≠ 123) :
    value (fuel + 1) levels (first :: rest) = scalar (first :: rest) := by
  simp [value, plain]

theorem value_array {head : UInt8} {others : Bytes} (written : text = head :: others)
    (starts : StartsValue head) (inside : items fuel levels text = some (read, tail)) :
    value (fuel + 1) (levels + 1) (91 :: text) = some (.arr read, tail) := by
  subst written
  simp [value, starts.1, starts.2, inside]

theorem value_object {read : List (Bytes × Doc)}
    (inside : fields fuel levels (34 :: text) = some (read, tail)) :
    value (fuel + 1) (levels + 1) (123 :: 34 :: text) = some (.obj read, tail) := by
  simp [value, inside]

theorem items_last (first : value fuel levels text = some (item, 93 :: tail)) :
    items (fuel + 1) levels text = some ([item], tail) := by
  simp [items, first]

theorem items_more (first : value fuel levels text = some (item, 44 :: more))
    (kept : skipSpace more = more) (others : items fuel levels more = some (read, tail)) :
    items (fuel + 1) levels text = some (item :: read, tail) := by
  simp [items, first, kept, others]

variable {name : Bytes} {field : Doc}

theorem fields_last (key : unquote 0 text = some (name, 58 :: more)) (kept : skipSpace more = more)
    (first : value fuel levels more = some (field, 125 :: tail)) :
    fields (fuel + 1) levels (34 :: text) = some ([(name, field)], tail) := by
  simp [fields, key, kept, first]

theorem fields_more {next : Bytes} {read : List (Bytes × Doc)}
    (key : unquote 0 text = some (name, 58 :: more)) (kept : skipSpace more = more)
    (first : value fuel levels more = some (field, 44 :: 34 :: next))
    (others : fields fuel levels (34 :: next) = some (read, tail)) :
    fields (fuel + 1) levels (34 :: text) = some ((name, field) :: read, tail) := by
  simp [fields, key, kept, first, others]

mutual

theorem value_encode (doc : Json) {fuel levels : Nat} {tail : Bytes}
    (enough : (encode doc).length ≤ fuel) (shallow : depth doc ≤ levels)
    (ends : EndsNumber tail) :
    value fuel levels (encode doc ++ tail) = some (toDoc doc, tail) := by
  cases fuel with
  | zero =>
    obtain ⟨first, rest, written, -⟩ := encode_head doc
    simp [written] at enough
  | succ fuel =>
  match doc with
  | .null => rfl
  | .bool true => rfl
  | .bool false => rfl
  | .int n =>
    obtain ⟨first, rest, written, range⟩ := decimal_head n
    have plain : first ≠ 34 ∧ first ≠ 91 ∧ first ≠ 123 := by
      refine ⟨?_, ?_, ?_⟩ <;> rintro rfl <;> exact absurd range (by decide)
    have read := scalar_decimal n ends
    rw [encode, toDoc]
    rw [written, List.cons_append] at read ⊢
    rw [value_scalar plain, read]
  | .str text =>
    have read := unquote_quote text tail
    simp [encode, quote, value, toDoc, read]
  | .arr [] =>
    obtain ⟨levels, rfl⟩ := Nat.exists_eq_add_of_le' shallow
    rfl
  | .arr (first :: rest) =>
    obtain ⟨levels, rfl⟩ := Nat.exists_eq_add_of_le' (Nat.succ_le_iff.mpr
      (Nat.lt_of_lt_of_le (Nat.succ_pos _) shallow))
    have encoded : encode (.arr (first :: rest)) ++ tail =
        91 :: (encodeItems (first :: rest) ++ 93 :: tail) := by
      simp [encode, ascii]
    have short : (encodeItems (first :: rest)).length < fuel := by
      have lengths := congrArg List.length encoded
      simp only [List.length_append, List.length_cons] at lengths
      omega
    obtain ⟨head, others, written, starts⟩ := encodeItems_head first rest (93 :: tail)
    rw [encoded, toDoc]
    exact value_array written starts
      (items_encode first rest short (Nat.succ_le_succ_iff.mp shallow))
  | .obj [] =>
    obtain ⟨levels, rfl⟩ := Nat.exists_eq_add_of_le' shallow
    rfl
  | .obj (first :: rest) =>
    obtain ⟨levels, rfl⟩ := Nat.exists_eq_add_of_le' (Nat.succ_le_iff.mpr
      (Nat.lt_of_lt_of_le (Nat.succ_pos _) shallow))
    have encoded : encode (.obj (first :: rest)) ++ tail =
        123 :: (encodeFields (first :: rest) ++ 125 :: tail) := by
      simp [encode]
    have short : (encodeFields (first :: rest)).length < fuel := by
      have lengths := congrArg List.length encoded
      simp only [List.length_append, List.length_cons] at lengths
      omega
    have inside : fields fuel levels (encodeFields (first :: rest) ++ 125 :: tail) =
        some (toDocFields (first :: rest), tail) :=
      fields_encode first rest short (Nat.succ_le_succ_iff.mp shallow)
    obtain ⟨text, written⟩ : ∃ text, encodeFields (first :: rest) ++ 125 :: tail =
        34 :: text := by
      cases rest <;> exact ⟨_, rfl⟩
    rw [written] at inside
    rw [encoded, toDoc, written]
    exact value_object inside
termination_by fuel

theorem items_encode (first : Json) (rest : List Json) {fuel levels : Nat} {tail : Bytes}
    (enough : (encodeItems (first :: rest)).length < fuel)
    (shallow : depthItems (first :: rest) ≤ levels) :
    items fuel levels (encodeItems (first :: rest) ++ 93 :: tail) =
      some (toDocItems (first :: rest), tail) := by
  cases fuel with
  | zero => omega
  | succ =>
  obtain ⟨firstShallow, restShallow⟩ := max_le_iff.mp shallow
  cases rest with
  | nil =>
    exact items_last (value_encode first (Nat.lt_succ_iff.mp enough) firstShallow
      (endsNumber_cons (by decide)))
  | cons next rest =>
  have encoded : encodeItems (first :: next :: rest) ++ 93 :: tail =
      encode first ++ 44 :: (encodeItems (next :: rest) ++ 93 :: tail) := by
    simp [encodeItems, ascii]
  have lengths := congrArg List.length encoded
  simp only [List.length_append, List.length_cons] at lengths
  rw [encoded]
  refine items_more (value_encode first (by omega) firstShallow
    (endsNumber_cons (by decide))) ?_ (items_encode next rest (by omega) restShallow)
  obtain ⟨head, others, written, starts⟩ := encodeItems_head next rest (93 :: tail)
  rw [written]
  exact if_neg starts.1
termination_by fuel

theorem fields_encode (first : Bytes × Json) (rest : List (Bytes × Json)) {fuel levels : Nat}
    {tail : Bytes} (enough : (encodeFields (first :: rest)).length < fuel)
    (shallow : depthFields (first :: rest) ≤ levels) :
    fields fuel levels (encodeFields (first :: rest) ++ 125 :: tail) =
      some (toDocFields (first :: rest), tail) := by
  obtain ⟨name, field⟩ := first
  cases fuel with
  | zero => omega
  | succ fuel =>
  obtain ⟨fieldShallow, restShallow⟩ := max_le_iff.mp shallow
  cases rest with
  | nil =>
    have encoded : encodeFields [(name, field)] ++ 125 :: tail =
        34 :: (quoteFrom 0 name ++ 34 :: 58 :: (encode field ++ 125 :: tail)) := by
      simp [encodeFields, quote, ascii]
    have lengths := congrArg List.length encoded
    simp only [List.length_append, List.length_cons] at lengths
    rw [encoded]
    exact fields_last (unquote_quote name _) (skipSpace_encode field _)
      (value_encode field (by omega) fieldShallow (endsNumber_cons (by decide)))
  | cons next rest =>
    obtain ⟨text, written⟩ : ∃ text, encodeFields (next :: rest) ++ 125 :: tail = 34 :: text := by
      cases rest <;> exact ⟨_, rfl⟩
    have encoded : encodeFields ((name, field) :: next :: rest) ++ 125 :: tail =
        34 :: (quoteFrom 0 name ++ 34 :: 58 :: (encode field ++
          44 :: (encodeFields (next :: rest) ++ 125 :: tail))) := by
      simp [encodeFields, quote, ascii]
    have lengths := congrArg List.length encoded
    simp only [List.length_append, List.length_cons] at lengths
    have others : fields fuel levels (encodeFields (next :: rest) ++ 125 :: tail) =
        some (toDocFields (next :: rest), tail) :=
      fields_encode next rest (by omega) restShallow
    rw [written] at encoded others
    rw [encoded]
    exact fields_more (unquote_quote name _) (skipSpace_encode field _)
      (value_encode field (by omega) fieldShallow (endsNumber_cons (by decide))) others
termination_by fuel

end

/-- An encoded document is read back. -/
theorem decode_encode (doc : Json) (shallow : depth doc ≤ maxNestingDepth) :
    decode (encode doc) = some (toDoc doc) := by
  have read : value ((encode doc).length + 1) maxNestingDepth (encode doc ++ []) =
      some (toDoc doc, []) :=
    value_encode doc (Nat.le_succ _) shallow endsNumber_nil
  have start := skipSpace_encode doc []
  rw [List.append_nil] at read start
  rw [decode, start, read]
  rfl

/-- A string field is read from the fields an object was encoded from. -/
theorem unmarshalString_encode {fields : List (Bytes × Json)}
    (shallow : depth (.obj fields) ≤ maxNestingDepth) :
    unmarshalString name (encode (.obj fields)) = stringField name [] (toDocFields fields) := by
  rw [unmarshalString, decode_encode _ shallow, toDoc]

end OmegaPlane.Json
