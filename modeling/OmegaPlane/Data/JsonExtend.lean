import OmegaPlane.Data.JsonDecode

/-!
# What follows a JSON value

A value that ends before its text does is read the same whatever follows, and
strings, arrays and objects are even when they end with it.  So no proper part
of an object is an object.
-/

namespace OmegaPlane.Json

/-! ## Strings -/

variable {text read rest more : Bytes} {skip fuel levels : Nat} {first : UInt8} {doc : Doc}

theorem unquote_eq_some (decoded : unquote skip text = some (read, rest)) :
    ∃ inside, text = inside ++ 34 :: rest := by
  fun_induction unquote skip text generalizing read with
  | case1 | case4 | case6 => contradiction
  | case2 skip byte text ih =>
    obtain ⟨inside, rfl⟩ := ih decoded
    exact ⟨byte :: inside, rfl⟩
  | case3 text =>
    cases decoded
    exact ⟨[], rfl⟩
  | case5 text bytes width _ _ ih =>
    obtain ⟨⟨later, end'⟩, same, ⟨⟩⟩ := Option.map_eq_some_iff.mp decoded
    obtain ⟨inside, rfl⟩ := ih same
    exact ⟨_ :: inside, rfl⟩
  | case7 byte text _ _ _ _ ih | case8 byte text _ _ _ length _ ih =>
    obtain ⟨⟨later, end'⟩, same, ⟨⟩⟩ := Option.map_eq_some_iff.mp decoded
    obtain ⟨inside, rfl⟩ := ih same
    exact ⟨byte :: inside, rfl⟩

/-- A quote ends a character. -/
theorem runeLength_quote (byte : UInt8) (inside rest rest' : Bytes) :
    Utf8.runeLength (byte :: (inside ++ 34 :: rest)) =
      Utf8.runeLength (byte :: (inside ++ 34 :: rest')) := by
  rcases inside with _ | ⟨b1, _ | ⟨b2, _ | ⟨b3, inside⟩⟩⟩
  · rcases rest with _ | ⟨r2, _ | ⟨r3, rest⟩⟩ <;> rcases rest' with _ | ⟨s2, _ | ⟨s3, rest'⟩⟩ <;>
      simp [Utf8.runeLength, Utf8.isTail]
  · rcases rest with _ | ⟨r3, rest⟩ <;> rcases rest' with _ | ⟨s3, rest'⟩ <;>
      simp [Utf8.runeLength, Utf8.isTail]
  · simp [Utf8.runeLength, Utf8.isTail]
  · simp [Utf8.runeLength]

theorem getu4_append {unit : Nat} (read : getu4 text = some unit) (tail : Bytes) :
    getu4 (text ++ tail) = some unit := by
  unfold getu4 at read
  split at read
  · simpa [getu4] using read
  · contradiction

theorem surrogatePair_append {high : Nat} (decoded : unquote 0 text = some (read, rest))
    (tail : Bytes) :
    surrogatePair high (text ++ tail) = surrogatePair high text := by
  cases text with
  | nil => simp [unquote] at decoded
  | cons first text =>
  by_cases backslash : first = 92
  · subst backslash
    cases text with
    | nil => simp [unquote, escaped] at decoded
    | cons second text =>
    by_cases unicode : second = 117
    · subst unicode
      -- the second half is whole, since it is read as an escape itself
      cases low : getu4 text with
      | none => simp [unquote, escaped, low] at decoded
      | some => simp [surrogatePair, low, getu4_append low tail]
    · unfold surrogatePair
      simp [unicode]
  · unfold surrogatePair
    simp [backslash]

theorem escaped_append {bytes : Bytes} {width : Nat} (known : escaped text = some (bytes, width))
    (decoded : unquote width text = some (read, rest)) (tail : Bytes) :
    escaped (text ++ tail) = some (bytes, width) := by
  cases text with
  | nil => simp [escaped] at known
  | cons byte text =>
  rw [← known]
  simp only [List.cons_append, escaped]
  by_cases unicode : byte = 117
  · subst unicode
    cases unit : getu4 text with
    | none => simp [escaped, unit] at known
    | some unit' =>
    have long : ∃ a b c d more, text = a :: b :: c :: d :: more := by
      unfold getu4 at unit
      split at unit
      · exact ⟨_, _, _, _, _, rfl⟩
      · contradiction
    obtain ⟨a, b, c, d, more, rfl⟩ := long
    have extended := getu4_append unit tail
    simp only [List.cons_append] at extended
    simp only [extended, List.cons_append, List.drop_succ_cons, List.drop_zero]
    by_cases surrogate : 0xD800 ≤ unit' ∧ unit' < 0xE000
    · simp only [surrogate]
      cases pair : surrogatePair unit' more with
      | none =>
        have five : width = 5 := by
          simp [escaped, unit, surrogate, pair] at known
          exact known.2.symm
        subst five
        rw [surrogatePair_append (by simpa [unquote] using decoded), pair]
      | some rune =>
        have whole : surrogatePair unit' (more ++ tail) = some rune := by
          unfold surrogatePair at pair
          split at pair
          · rename_i rest'
            cases low : getu4 rest' with
            | none => simp [low] at pair
            | some =>
              rw [← pair]
              simp [surrogatePair, low, getu4_append low tail]
          · contradiction
        rw [whole]
    · simp [surrogate]
  · simp [unicode]

/-- A string that ends in a text is read whatever follows the text. -/
theorem unquote_append (decoded : unquote skip text = some (read, rest)) (tail : Bytes) :
    unquote skip (text ++ tail) = some (read, rest ++ tail) := by
  fun_induction unquote skip text generalizing read with
  | case1 | case4 | case6 => contradiction
  | case2 skip byte text ih => exact ih decoded
  | case3 text =>
    cases decoded
    simp [unquote]
  | case5 text bytes width known _ ih =>
    obtain ⟨⟨later, end'⟩, same, ⟨⟩⟩ := Option.map_eq_some_iff.mp decoded
    simp only [List.cons_append, unquote]
    rw [escaped_append known same tail]
    simp [emit, ih same]
  | case7 byte text notQuote notEscape visible none ih =>
    obtain ⟨⟨later, end'⟩, same, ⟨⟩⟩ := Option.map_eq_some_iff.mp decoded
    obtain ⟨inside, rfl⟩ := unquote_eq_some same
    rw [runeLength_quote byte inside end' (end' ++ tail)] at none
    have extended := ih same
    simp only [List.append_assoc, List.cons_append] at extended ⊢
    simp [unquote, notQuote, notEscape, visible, none, extended, emit]
  | case8 byte text notQuote notEscape visible length found ih =>
    obtain ⟨⟨later, end'⟩, same, ⟨⟩⟩ := Option.map_eq_some_iff.mp decoded
    obtain ⟨-, within, stable⟩ := Utf8.runeLength_spec found
    have taken : (byte :: (text ++ tail)).take length = (byte :: text).take length := by
      rw [← List.cons_append, List.take_append_of_le_length within]
    have extended := stable _ taken
    simp [unquote, notQuote, notEscape, visible, extended, taken, ih same, emit]

/-! ## Numbers and words -/

theorem dropWhile_append_of_ne_nil {p : UInt8 → Bool} (dropped : text.dropWhile p = rest)
    (goesOn : rest ≠ []) (tail : Bytes) :
    (text ++ tail).dropWhile p = rest ++ tail := by
  rw [List.dropWhile_append, dropped, if_neg (by simpa using goesOn)]

theorem digits_append (read : digits text = some rest) (goesOn : rest ≠ []) (tail : Bytes) :
    digits (text ++ tail) = some (rest ++ tail) := by
  cases text with
  | nil => simp [digits] at read
  | cons byte text =>
  simp only [digits] at read
  split at read
  · rename_i digit
    have dropped := dropWhile_append_of_ne_nil (Option.some.inj read) goesOn tail
    simp [digits, digit, dropped]
  · contradiction

theorem wholeNumber_append (read : wholeNumber text = some rest) (goesOn : rest ≠ [])
    (tail : Bytes) :
    wholeNumber (text ++ tail) = some (rest ++ tail) := by
  unfold wholeNumber at read
  split at read
  · cases read
    rfl
  rename_i notZero
  have extended := digits_append read goesOn tail
  cases text with
  | nil => simp [digits] at read
  | cons byte text =>
  have different : byte ≠ 48 := by
    rintro rfl
    exact notZero text rfl
  unfold wholeNumber
  split
  · rename_i same
    simp [different] at same
  · exact extended

theorem fraction_append (read : fraction text = some rest) (goesOn : rest ≠ []) (tail : Bytes) :
    fraction (text ++ tail) = some (rest ++ tail) := by
  unfold fraction at read
  split at read
  · exact digits_append read goesOn tail
  rename_i notPoint
  cases read
  cases text with
  | nil => contradiction
  | cons byte text =>
  unfold fraction
  split
  · rename_i same
    cases same
    exact absurd rfl (notPoint text)
  · rfl

theorem exponent_append (read : exponent text = some rest) (goesOn : rest ≠ []) (tail : Bytes) :
    exponent (text ++ tail) = some (rest ++ tail) := by
  cases text with
  | nil =>
    cases read
    contradiction
  | cons byte text =>
  simp only [exponent] at read
  split at read
  · rename_i marked
    have nonempty : text ≠ [] := by
      rintro rfl
      simp [digits] at read
    obtain ⟨sign, more, rfl⟩ := List.exists_cons_of_ne_nil nonempty
    simp only [List.cons_append, exponent, marked, if_true]
    by_cases plus : sign = 43
    · subst plus
      exact digits_append read goesOn tail
    by_cases minus : sign = 45
    · subst minus
      exact digits_append read goesOn tail
    · split at read
      · simp_all
      · simp_all
      · split
        · simp_all
        · simp_all
        · exact digits_append read goesOn tail
  · rename_i unmarked
    cases read
    simp [exponent, unmarked]

/-- A number without a sign. -/
theorem unsigned_append
    (read : ((wholeNumber text).bind fun rest => (fraction rest).bind exponent) = some rest)
    (goesOn : rest ≠ []) (tail : Bytes) :
    ((wholeNumber (text ++ tail)).bind fun rest => (fraction rest).bind exponent) =
      some (rest ++ tail) := by
  obtain ⟨afterWhole, whole, later⟩ := Option.bind_eq_some_iff.mp read
  obtain ⟨afterFraction, fractional, last⟩ := Option.bind_eq_some_iff.mp later
  have fractionEnds : afterFraction ≠ [] := by
    rintro rfl
    cases last
    contradiction
  have wholeEnds : afterWhole ≠ [] := by
    rintro rfl
    cases fractional
    contradiction
  rw [wholeNumber_append whole wholeEnds, Option.bind_some,
    fraction_append fractional fractionEnds, Option.bind_some, exponent_append last goesOn]

theorem numberEnd_append (read : numberEnd text = some rest) (goesOn : rest ≠ []) (tail : Bytes) :
    numberEnd (text ++ tail) = some (rest ++ tail) := by
  unfold numberEnd at read
  split at read
  · exact unsigned_append read goesOn tail
  rename_i notMinus
  have extended := unsigned_append read goesOn tail
  cases text with
  | nil => simp [wholeNumber, digits] at read
  | cons byte text =>
  unfold numberEnd
  split
  · rename_i same
    cases same
    exact absurd rfl (notMinus text)
  · exact extended

/-- A number starts with a sign or a digit. -/
theorem head_of_numberEnd (read : numberEnd text = some rest) :
    ∃ first more, text = first :: more ∧ (first = 45 ∨ isDigit first = true) := by
  cases text with
  | nil => simp [numberEnd, wholeNumber, digits] at read
  | cons first more =>
  refine ⟨first, more, rfl, ?_⟩
  by_cases minus : first = 45
  · exact .inl minus
  refine .inr ?_
  by_contra notDigit
  have notZero : first ≠ 48 := by
    rintro rfl
    exact notDigit rfl
  simp [numberEnd, minus, wholeNumber, notZero, digits, notDigit] at read

theorem hasPrefix_extended {word : Bytes} (starts : Text.hasPrefix text word = true)
    (tail : Bytes) :
    Text.hasPrefix (text ++ tail) word = true ∧
      (text ++ tail).drop word.length = text.drop word.length ++ tail := by
  obtain ⟨rest, rfl⟩ := List.isPrefixOf_iff_prefix.mp starts
  constructor
  · rw [List.append_assoc]
    exact Text.hasPrefix_append word _
  · simp [List.append_assoc]

theorem hasPrefix_of_head_ne {other : UInt8} (different : other ≠ first) (rest word : Bytes) :
    Text.hasPrefix (first :: rest) (other :: word) = false := by
  simp [Text.hasPrefix, List.isPrefixOf, different]

theorem scalar_append (read : scalar text = some (doc, rest)) (goesOn : rest ≠ []) (tail : Bytes) :
    scalar (text ++ tail) = some (doc, rest ++ tail) := by
  have null : ascii "null" = [110, 117, 108, 108] := by decide
  have yes : ascii "true" = [116, 114, 117, 101] := by decide
  have no : ascii "false" = [102, 97, 108, 115, 101] := by decide
  unfold scalar at read ⊢
  split at read
  · rename_i starts
    obtain ⟨extended, dropped⟩ := hasPrefix_extended starts tail
    cases read
    rw [if_pos extended]
    rw [show (ascii "null").length = 4 by decide] at dropped
    rw [dropped]
  · split at read
    · rename_i starts
      obtain ⟨extended, dropped⟩ := hasPrefix_extended starts tail
      obtain ⟨more, rfl⟩ := List.isPrefixOf_iff_prefix.mp starts
      cases read
      rw [if_neg (by rw [yes, null]; simp [Text.hasPrefix]), if_pos extended]
      rw [show (ascii "true").length = 4 by decide] at dropped
      rw [dropped]
    · split at read
      · rename_i starts
        obtain ⟨extended, dropped⟩ := hasPrefix_extended starts tail
        obtain ⟨more, rfl⟩ := List.isPrefixOf_iff_prefix.mp starts
        cases read
        rw [if_neg (by rw [no, null]; simp [Text.hasPrefix]),
          if_neg (by rw [no, yes]; simp [Text.hasPrefix]), if_pos extended]
        rw [show (ascii "false").length = 5 by decide] at dropped
        rw [dropped]
      · obtain ⟨end', number, ⟨⟩⟩ := Option.map_eq_some_iff.mp read
        obtain ⟨first, more, rfl, starts⟩ := head_of_numberEnd number
        have notWord : ∀ letter : UInt8, 57 < letter → letter ≠ first := by
          rintro letter high rfl
          rcases starts with rfl | digit
          · exact absurd high (by decide)
          · simp only [isDigit, Bool.and_eq_true, decide_eq_true_eq] at digit
            exact UInt8.not_le.mpr high digit.2
        rw [List.cons_append, null, yes, no,
          if_neg (by rw [hasPrefix_of_head_ne (notWord _ (by decide))]; simp),
          if_neg (by rw [hasPrefix_of_head_ne (notWord _ (by decide))]; simp),
          if_neg (by rw [hasPrefix_of_head_ne (notWord _ (by decide))]; simp),
          ← List.cons_append, numberEnd_append number goesOn tail, Option.map_some]
        congr 3
        rw [List.length_append, List.length_append, Nat.add_sub_add_right,
          List.take_append_of_le_length (Nat.sub_le _ _)]

/-! ## Documents -/

theorem skipSpace_append (read : skipSpace text = first :: rest) (tail : Bytes) :
    skipSpace (text ++ tail) = first :: (rest ++ tail) := by
  induction text with
  | nil => simp at read
  | cons byte text ih =>
  simp only [skipSpace] at read
  split at read
  · rename_i blank
    simp [blank, ih read]
  · rename_i notBlank
    cases read
    simp [notBlank]

/-- The text opens a string, an array or an object. -/
def Opens (text : Bytes) : Prop :=
  ∃ first rest, text = first :: rest ∧ (first = 34 ∨ first = 91 ∨ first = 123)

theorem scalar_nil : scalar [] = none := by decide

theorem items_nil (fuel levels : Nat) : items fuel levels [] = none := by
  cases fuel with
  | zero => rfl
  | succ fuel =>
    cases fuel with
    | zero => rfl
    | succ => simp [items, value, scalar_nil]

theorem fields_nil (fuel levels : Nat) : fields fuel levels [] = none := by
  cases fuel with
  | zero => rfl
  | succ => rfl

/-- Values read with the fuel are read the same whatever follows. -/
def ValuesReadOn (fuel : Nat) : Prop :=
  ∀ {levels : Nat} {text rest : Bytes} {doc : Doc}, value fuel levels text = some (doc, rest) →
    rest ≠ [] ∨ Opens text → ∀ {fuel' : Nat} (tail : Bytes), fuel ≤ fuel' →
    value fuel' levels (text ++ tail) = some (doc, rest ++ tail)

def ItemsReadOn (fuel : Nat) : Prop :=
  ∀ {levels : Nat} {text rest : Bytes} {docs : List Doc},
    items fuel levels text = some (docs, rest) → ∀ {fuel' : Nat} (tail : Bytes), fuel ≤ fuel' →
    items fuel' levels (text ++ tail) = some (docs, rest ++ tail)

def FieldsReadOn (fuel : Nat) : Prop :=
  ∀ {levels : Nat} {text rest : Bytes} {docs : List (Bytes × Doc)},
    fields fuel levels text = some (docs, rest) → ∀ {fuel' : Nat} (tail : Bytes), fuel ≤ fuel' →
    fields fuel' levels (text ++ tail) = some (docs, rest ++ tail)

theorem value_nil (fuel levels : Nat) : value fuel levels [] = none := by
  cases fuel with
  | zero => rfl
  | succ => simp [value, scalar_nil]

variable {next : UInt8} {fuel' : Nat}

theorem value_array_eq (skipped : skipSpace text = next :: more) (some : next ≠ 93) :
    value (fuel + 1) (levels + 1) (91 :: text) =
      (items fuel levels (next :: more)).map fun decoded => (.arr decoded.1, decoded.2) := by
  simp [value, skipped, some]

theorem value_object_eq (skipped : skipSpace text = next :: more) (some : next ≠ 125) :
    value (fuel + 1) (levels + 1) (123 :: text) =
      (fields fuel levels (next :: more)).map fun decoded => (.obj decoded.1, decoded.2) := by
  simp [value, skipped, some]

theorem value_array_append (itemLists : ItemsReadOn fuel) (enough : fuel ≤ fuel')
    (read : value (fuel + 1) levels (91 :: text) = some (doc, rest)) (tail : Bytes) :
    value (fuel' + 1) levels (91 :: (text ++ tail)) = some (doc, rest ++ tail) := by
  cases levels with
  | zero => simp [value] at read
  | succ =>
  cases skipped : skipSpace text with
  | nil => simp [value, skipped, items_nil] at read
  | cons next =>
  have extended := skipSpace_append skipped tail
  by_cases empty : next = 93
  · subst empty
    simp only [value, skipped] at read
    cases read
    simp [value, extended]
  · rw [value_array_eq skipped empty] at read
    rw [value_array_eq extended empty]
    obtain ⟨⟨docs, end'⟩, same, ⟨⟩⟩ := Option.map_eq_some_iff.mp read
    rw [← List.cons_append, itemLists same tail enough]
    rfl

theorem value_object_append (fieldLists : FieldsReadOn fuel) (enough : fuel ≤ fuel')
    (read : value (fuel + 1) levels (123 :: text) = some (doc, rest)) (tail : Bytes) :
    value (fuel' + 1) levels (123 :: (text ++ tail)) = some (doc, rest ++ tail) := by
  cases levels with
  | zero => simp [value] at read
  | succ =>
  cases skipped : skipSpace text with
  | nil => simp [value, skipped, fields_nil] at read
  | cons next =>
  have extended := skipSpace_append skipped tail
  by_cases empty : next = 125
  · subst empty
    simp only [value, skipped] at read
    cases read
    simp [value, extended]
  · rw [value_object_eq skipped empty] at read
    rw [value_object_eq extended empty]
    obtain ⟨⟨docs, end'⟩, same, ⟨⟩⟩ := Option.map_eq_some_iff.mp read
    rw [← List.cons_append, fieldLists same tail enough]
    rfl

theorem ValuesReadOn.succ (itemLists : ItemsReadOn fuel) (fieldLists : FieldsReadOn fuel) :
    ValuesReadOn (fuel + 1) := by
  intro levels text rest doc read ends fuel' tail enough
  obtain ⟨fuel', rfl⟩ : ∃ n, fuel' = n + 1 := ⟨fuel' - 1, by omega⟩
  have enough' : fuel ≤ fuel' := by omega
  cases text with
  | nil => simp [value_nil] at read
  | cons first =>
  by_cases isString : first = 34
  · subst isString
    simp only [value] at read
    obtain ⟨⟨inside, end'⟩, same, ⟨⟩⟩ := Option.map_eq_some_iff.mp read
    simp [value, unquote_append same tail]
  · by_cases isArray : first = 91
    · subst isArray
      exact value_array_append itemLists enough' read tail
    · by_cases isObject : first = 123
      · subst isObject
        exact value_object_append fieldLists enough' read tail
      · rw [value_scalar ⟨isString, isArray, isObject⟩] at read
        rw [List.cons_append, value_scalar ⟨isString, isArray, isObject⟩, ← List.cons_append]
        refine scalar_append read ?_ tail
        rcases ends with goesOn | ⟨other, more, same, opens⟩
        · exact goesOn
        · cases same
          simp [isString, isArray, isObject] at opens

theorem ItemsReadOn.succ (values : ValuesReadOn fuel) (itemLists : ItemsReadOn fuel) :
    ItemsReadOn (fuel + 1) := by
  intro levels text rest docs read fuel' tail enough
  obtain ⟨fuel', rfl⟩ : ∃ n, fuel' = n + 1 := ⟨fuel' - 1, by omega⟩
  have enough' : fuel ≤ fuel' := by omega
  cases first : value fuel levels text with
  | none => simp [items, first] at read
  | some decoded =>
  obtain ⟨item, after⟩ := decoded
  cases skipped : skipSpace after with
  | nil => simp [items, first, skipped] at read
  | cons next more =>
  have goesOn : after ≠ [] := by
    rintro rfl
    simp at skipped
  have extended := values first (.inl goesOn) tail enough'
  have space := skipSpace_append skipped tail
  by_cases isComma : next = 44
  · subst isComma
    simp only [items, first, skipped] at read
    obtain ⟨⟨others, end'⟩, same, ⟨⟩⟩ := Option.map_eq_some_iff.mp read
    cases later : skipSpace more with
    | nil => simp [later, items_nil] at same
    | cons =>
    rw [later] at same
    simp only [items, extended, space, skipSpace_append later tail]
    rw [← List.cons_append, itemLists same tail enough']
    rfl
  · by_cases isEnd : next = 93
    · subst isEnd
      simp only [items, first, skipped] at read
      cases read
      simp [items, extended, space]
    · simp [items, first, skipped, isComma, isEnd] at read

theorem FieldsReadOn.succ (values : ValuesReadOn fuel) (fieldLists : FieldsReadOn fuel) :
    FieldsReadOn (fuel + 1) := by
  intro levels text rest docs read fuel' tail enough
  obtain ⟨fuel', rfl⟩ : ∃ n, fuel' = n + 1 := ⟨fuel' - 1, by omega⟩
  have enough' : fuel ≤ fuel' := by omega
  unfold fields at read
  split at read
  · rename_i text
    split at read
    · contradiction
    rename_i name afterKey key
    split at read
    · rename_i afterColon colon
      cases start : skipSpace afterColon with
      | nil => simp [start, value_nil] at read
      | cons head body =>
      split at read
      · contradiction
      rename_i field after first
      cases skipped : skipSpace after with
      | nil => simp [skipped] at read
      | cons next more =>
      have goesOn : after ≠ [] := by
        rintro rfl
        simp at skipped
      have extended := values first (.inl goesOn) tail enough'
      rw [start, List.cons_append, ← skipSpace_append start tail] at extended
      have space := skipSpace_append skipped tail
      have keyExtended := unquote_append key tail
      have colonExtended := skipSpace_append colon tail
      rw [skipped] at read
      by_cases isComma : next = 44
      · subst isComma
        obtain ⟨⟨others, end'⟩, same, ⟨⟩⟩ := Option.map_eq_some_iff.mp read
        cases later : skipSpace more with
        | nil => simp [later, fields_nil] at same
        | cons =>
        rw [later] at same
        simp only [List.cons_append, fields, keyExtended, colonExtended, extended,
          space, skipSpace_append later tail]
        rw [← List.cons_append, fieldLists same tail enough']
        rfl
      · by_cases isEnd : next = 125
        · subst isEnd
          cases read
          simp [fields, keyExtended, colonExtended, extended, space]
        · simp [isComma, isEnd] at read
    · contradiction
  · contradiction

/-- Whatever was read is read the same before more text. -/
theorem readOn (fuel : Nat) : ValuesReadOn fuel ∧ ItemsReadOn fuel ∧ FieldsReadOn fuel := by
  induction fuel with
  | zero =>
    refine ⟨?_, ?_, ?_⟩
    · intro levels text rest doc read
      simp [value] at read
    · intro levels text rest docs read
      simp [items] at read
    · intro levels text rest docs read
      simp [fields] at read
  | succ fuel ih =>
    obtain ⟨values, itemLists, fieldLists⟩ := ih
    exact ⟨ValuesReadOn.succ itemLists fieldLists, ItemsReadOn.succ values itemLists,
      FieldsReadOn.succ values fieldLists⟩

theorem value_append (read : value fuel levels text = some (doc, rest))
    (ends : rest ≠ [] ∨ Opens text) (enough : fuel ≤ fuel') (tail : Bytes) :
    value fuel' levels (text ++ tail) = some (doc, rest ++ tail) :=
  (readOn fuel).1 read ends tail enough

/-! ## Members with their texts -/

/-- A member of an object: its name, its text and what the text is decoded to. -/
structure Member where
  name : Bytes
  raw : Bytes
  doc : Doc

/-- Read one member. -/
def member (fuel levels : Nat) : Bytes → Option (Member × Bytes)
  | 34 :: text =>
    match unquote 0 text with
    | none => none
    | some (name, rest) =>
      match skipSpace rest with
      | 58 :: rest =>
        let body := skipSpace rest
        (value fuel levels body).map fun decoded =>
          (⟨name, body.take (body.length - decoded.2.length), decoded.1⟩, decoded.2)
      | _ => none
  | _ => none

/-- Read the members of an object up to its end. -/
def members : Nat → Nat → Bytes → Option (List Member × Bytes)
  | 0, _, _ => none
  | fuel + 1, levels, text =>
    match member fuel levels text with
    | none => none
    | some (first, rest) =>
      match skipSpace rest with
      | 44 :: rest =>
        (members fuel levels (skipSpace rest)).map fun decoded =>
          (first :: decoded.1, decoded.2)
      | 125 :: rest => some ([first], rest)
      | _ => none

/-- The members of an object that is a whole text. -/
def objectMembers (text : Bytes) : Option (List Member) :=
  match skipSpace text with
  | 123 :: rest =>
    match skipSpace rest with
    | 125 :: rest => if skipSpace rest = [] then some [] else none
    | rest =>
      match members text.length (maxNestingDepth - 1) rest with
      | none => none
      | some (found, rest) => if skipSpace rest = [] then some found else none
  | _ => none

theorem members_nil (fuel levels : Nat) : members fuel levels [] = none := by
  cases fuel <;> rfl

theorem member_append {found : Member} (read : member fuel levels text = some (found, rest))
    (goesOn : rest ≠ []) (enough : fuel ≤ fuel') (tail : Bytes) :
    member fuel' levels (text ++ tail) = some (found, rest ++ tail) := by
  unfold member at read
  split at read
  · rename_i text
    split at read
    · contradiction
    rename_i name afterName key
    split at read
    · rename_i afterColon colon
      obtain ⟨⟨doc, after⟩, body, ⟨⟩⟩ := Option.map_eq_some_iff.mp read
      cases start : skipSpace afterColon with
      | nil => simp [start, value_nil] at body
      | cons =>
      have extended := value_append body (.inl goesOn) enough tail
      simp only [start, List.cons_append] at extended ⊢
      simp only [member, unquote_append key tail, skipSpace_append colon tail,
        skipSpace_append start tail, extended, Option.map_some]
      congr 3
      rw [← List.cons_append, List.length_append, List.length_append, Nat.add_sub_add_right,
        List.take_append_of_le_length (Nat.sub_le _ _)]
    · contradiction
  · contradiction

variable {found : List Member}

theorem members_append (read : members fuel levels text = some (found, rest))
    (enough : fuel ≤ fuel') (tail : Bytes) :
    members fuel' levels (text ++ tail) = some (found, rest ++ tail) := by
  induction fuel generalizing fuel' text found with
  | zero => simp [members] at read
  | succ fuel ih =>
  obtain ⟨fuel', rfl⟩ : ∃ n, fuel' = n + 1 := ⟨fuel' - 1, by omega⟩
  have enough' : fuel ≤ fuel' := by omega
  cases first : member fuel levels text with
  | none => simp [members, first] at read
  | some decoded =>
  obtain ⟨one, after⟩ := decoded
  cases skipped : skipSpace after with
  | nil => simp [members, first, skipped] at read
  | cons next more =>
  have goesOn : after ≠ [] := by
    rintro rfl
    simp at skipped
  have extended := member_append first goesOn enough' tail
  have space := skipSpace_append skipped tail
  by_cases isComma : next = 44
  · subst isComma
    simp only [members, first, skipped] at read
    obtain ⟨⟨others, end'⟩, same, ⟨⟩⟩ := Option.map_eq_some_iff.mp read
    cases later : skipSpace more with
    | nil => simp [later, members_nil] at same
    | cons =>
    rw [later] at same
    simp only [members, extended, space, skipSpace_append later tail]
    rw [← List.cons_append, ih same enough']
    rfl
  · by_cases isEnd : next = 125
    · subst isEnd
      simp only [members, first, skipped] at read
      cases read
      simp [members, extended, space]
    · simp [members, first, skipped, isComma, isEnd] at read

theorem objectMembers_of_members
    (read : members (more.length + 2) (maxNestingDepth - 1) (34 :: more) = some (found, [])) :
    objectMembers (123 :: 34 :: more) = some found := by
  simp only [objectMembers, skipSpace, List.length_cons]
  simp [read]

/-- No proper part of an object from its start is an object. -/
theorem objectMembers_torn {part : Bytes}
    (read : members (more.length + 2) (maxNestingDepth - 1) (34 :: more) = some (found, []))
    (isPart : part <+: 123 :: 34 :: more) (proper : part ≠ 123 :: 34 :: more) :
    objectMembers part = none := by
  obtain ⟨tail, whole⟩ := isPart
  rcases part with _ | ⟨first, _ | ⟨second, inside⟩⟩
  · rfl
  · cases whole
    simp [objectMembers, members_nil]
  simp only [List.cons_append, List.cons.injEq] at whole
  obtain ⟨rfl, rfl, rfl⟩ := whole
  cases partRead : members (inside.length + 2) (maxNestingDepth - 1) (34 :: inside) with
  | none => simp [objectMembers, partRead]
  | some decoded =>
  -- what the part gives is what the whole gives, with the rest left over
  obtain ⟨others, left⟩ := decoded
  have extended := members_append partRead
    (show inside.length + 2 ≤ (inside ++ tail).length + 2 by simp) tail
  rw [List.cons_append, read] at extended
  simp only [Option.some.injEq, Prod.mk.injEq, List.nil_eq, List.append_eq_nil_iff] at extended
  obtain ⟨-, -, rfl⟩ := extended
  simp at proper

/-- What opens as an object is read as one. -/
theorem doc_of_value_object (read : value fuel levels (123 :: text) = some (doc, rest)) :
    ∃ found, doc = .obj found := by
  cases fuel with
  | zero => simp [value] at read
  | succ =>
  cases levels with
  | zero => simp [value] at read
  | succ =>
  cases skipped : skipSpace text with
  | nil => simp [value, skipped, fields_nil] at read
  | cons next =>
  by_cases empty : next = 125
  · subst empty
    simp only [value, skipped] at read
    cases read
    exact ⟨[], rfl⟩
  · rw [value_object_eq skipped empty] at read
    obtain ⟨decoded, -, ⟨⟩⟩ := Option.map_eq_some_iff.mp read
    exact ⟨_, rfl⟩

theorem decode_object_ne_null (text : Bytes) : decode (123 :: text) ≠ some .null := by
  intro read
  have kept : skipSpace (123 :: text) = 123 :: text := rfl
  rw [decode, kept] at read
  split at read
  · contradiction
  rename_i doc rest found
  obtain ⟨members, rfl⟩ := doc_of_value_object found
  split at read
  · cases read
  · contradiction

end OmegaPlane.Json
