import OmegaPlane.Data.Hex
import OmegaPlane.Data.Utf8

/-!
# JSON texts

Documents of strings, whole numbers, arrays and objects and their encoding as
`encoding/json` writes it: no white space, the HTML characters and line
separators escaped, ill-formed UTF-8 replaced.
-/

namespace OmegaPlane

/-- A JSON document.  The fields of an object stand in the order in which they
are written; a map is written in the order of its keys. -/
inductive Json where
  | null
  | bool (value : Bool)
  | int (value : Int)
  | str (text : Bytes)
  | arr (items : List Json)
  | obj (fields : List (Bytes × Json))

namespace Json

/-- A character below `0x80` inside a string. -/
def escape (byte : UInt8) : Bytes :=
  if byte = 34 ∨ byte = 92 then [92, byte]
  else if byte = 8 then ascii "\\b"
  else if byte = 12 then ascii "\\f"
  else if byte = 10 then ascii "\\n"
  else if byte = 13 then ascii "\\r"
  else if byte = 9 then ascii "\\t"
  else if byte < 32 ∨ byte = 60 ∨ byte = 62 ∨ byte = 38 then
    ascii "\\u00" ++ [Hex.digit (byte.toNat / 16), Hex.digit (byte.toNat % 16)]
  else [byte]

/-- The inside of a string; the next `skip` bytes belong to a character
already checked and are copied. -/
def quoteFrom : Nat → Bytes → Bytes
  | _, [] => []
  | skip + 1, byte :: rest => byte :: quoteFrom skip rest
  | 0, 0xE2 :: 0x80 :: 0xA8 :: rest => ascii "\\u2028" ++ quoteFrom 0 rest
  | 0, 0xE2 :: 0x80 :: 0xA9 :: rest => ascii "\\u2029" ++ quoteFrom 0 rest
  | 0, byte :: rest =>
    if byte < 0x80 then escape byte ++ quoteFrom 0 rest
    else
      match Utf8.runeLength (byte :: rest) with
      | none => ascii "\\ufffd" ++ quoteFrom 0 rest
      | some length => byte :: quoteFrom (length - 1) rest

/-- A string literal. -/
def quote (text : Bytes) : Bytes :=
  34 :: quoteFrom 0 text ++ [34]

theorem length_escape_le (byte : UInt8) : (escape byte).length ≤ 6 := by
  unfold escape
  repeat' split
  all_goals simp [show (ascii "\\u00").length = 4 by decide, show (ascii "\\b").length = 2 by decide,
    show (ascii "\\f").length = 2 by decide, show (ascii "\\n").length = 2 by decide,
    show (ascii "\\r").length = 2 by decide, show (ascii "\\t").length = 2 by decide]

theorem length_quoteFrom_le (skip : Nat) (text : Bytes) :
    (quoteFrom skip text).length ≤ 6 * text.length := by
  fun_induction quoteFrom skip text with
  | case1 => exact Nat.zero_le _
  | case2 skip byte rest ih | case7 byte rest _ _ large length found ih =>
    simp only [List.length_cons]
    omega
  | case3 rest ih =>
    simp only [List.length_append, List.length_cons, show (ascii "\\u2028").length = 6 by decide]
    omega
  | case4 rest ih =>
    simp only [List.length_append, List.length_cons, show (ascii "\\u2029").length = 6 by decide]
    omega
  | case5 byte rest _ _ small ih =>
    have escaped := length_escape_le byte
    simp only [List.length_append, List.length_cons]
    omega
  | case6 byte rest _ _ large none ih =>
    simp only [List.length_append, List.length_cons, show (ascii "\\ufffd").length = 6 by decide]
    omega

theorem length_quote_le (text : Bytes) : (quote text).length ≤ 6 * text.length + 2 := by
  have inside := length_quoteFrom_le 0 text
  simp only [quote, List.cons_append, List.length_cons, List.length_append, List.length_nil]
  omega

mutual

/-- The encoded document. -/
def encode : Json → Bytes
  | .null => ascii "null"
  | .bool true => ascii "true"
  | .bool false => ascii "false"
  | .int value => decimal value
  | .str text => quote text
  | .arr items => ascii "[" ++ encodeItems items ++ ascii "]"
  | .obj fields => [123] ++ encodeFields fields ++ [125]

/-- The comma-separated items of an array. -/
def encodeItems : List Json → Bytes
  | [] => []
  | [item] => encode item
  | item :: next :: rest => encode item ++ ascii "," ++ encodeItems (next :: rest)

/-- The comma-separated fields of an object. -/
def encodeFields : List (Bytes × Json) → Bytes
  | [] => []
  | [(name, value)] => quote name ++ ascii ":" ++ encode value
  | (name, value) :: next :: rest =>
    quote name ++ ascii ":" ++ encode value ++ ascii "," ++ encodeFields (next :: rest)

end

/-! ## An encoded document is one line -/

theorem feed_ne_digit {n : Nat} (bound : n < 16) : 10 ≠ Hex.digit n := by
  intro same
  have decoded := Hex.fromHexChar_digit bound
  rw [← same] at decoded
  contradiction

theorem feed_notMem_escape (byte : UInt8) : 10 ∉ escape byte := by
  by_cases feed : 10 = byte
  · subst feed
    decide
  · have bound := byte.toNat_lt
    have high := feed_ne_digit (show byte.toNat / 16 < 16 by omega)
    have low := feed_ne_digit (show byte.toNat % 16 < 16 by omega)
    have lead : 10 ∉ ascii "\\u00" := by decide
    unfold escape
    repeat' split
    all_goals first | decide | simp [feed, high, low, lead]

theorem feed_notMem_quoteFrom {skip : Nat} {text : Bytes} (copied : 10 ∉ text.take skip) :
    10 ∉ quoteFrom skip text := by
  fun_induction quoteFrom skip text with
  | case1 => simp
  | case2 skip byte rest ih =>
    simp only [List.take_succ_cons, List.mem_cons, not_or] at copied ⊢
    exact ⟨copied.1, ih copied.2⟩
  | case3 rest ih => simp [ih, show 10 ∉ ascii "\\u2028" by decide]
  | case4 rest ih => simp [ih, show 10 ∉ ascii "\\u2029" by decide]
  | case5 byte rest _ _ small ih => simp [ih, feed_notMem_escape byte]
  | case6 byte rest _ _ large none ih => simp [ih, show 10 ∉ ascii "\\ufffd" by decide]
  | case7 byte rest _ _ large length found ih =>
    have inside : 10 ∉ rest.take (length - 1) := fun member =>
      absurd (Utf8.runeLength_tail found member) (by decide)
    have first : 10 ≠ byte := by
      rintro rfl
      exact large (by decide)
    simp [first, ih inside]

theorem feed_notMem_quote (text : Bytes) : 10 ∉ quote text := by
  simp [quote, @feed_notMem_quoteFrom 0 text (by simp)]

theorem feed_notMem_decimal (n : Int) : 10 ∉ decimal n := by
  have digits : ∀ m, 10 ∉ natDecimal m := fun m member =>
    absurd (natDecimal_mem member).1 (by decide)
  unfold decimal
  split
  · simp [digits]
  · exact digits _

mutual

theorem feed_notMem_encode : ∀ doc : Json, 10 ∉ encode doc
  | .null => by decide
  | .bool true => by decide
  | .bool false => by decide
  | .int value => feed_notMem_decimal value
  | .str text => feed_notMem_quote text
  | .arr items => by
    simp [encode, feed_notMem_encodeItems items, show 10 ∉ ascii "[" by decide,
      show 10 ∉ ascii "]" by decide]
  | .obj fields => by simp [encode, feed_notMem_encodeFields fields]

theorem feed_notMem_encodeItems : ∀ items : List Json, 10 ∉ encodeItems items
  | [] => by simp [encodeItems]
  | [item] => feed_notMem_encode item
  | item :: next :: rest => by
    simp [encodeItems, feed_notMem_encode item, feed_notMem_encodeItems (next :: rest),
      show 10 ∉ ascii "," by decide]

theorem feed_notMem_encodeFields : ∀ fields : List (Bytes × Json), 10 ∉ encodeFields fields
  | [] => by simp [encodeFields]
  | [(name, value)] => by
    simp [encodeFields, feed_notMem_quote, feed_notMem_encode value, show 10 ∉ ascii ":" by decide]
  | (name, value) :: next :: rest => by
    simp [encodeFields, feed_notMem_quote, feed_notMem_encode value,
      feed_notMem_encodeFields (next :: rest), show 10 ∉ ascii ":" by decide,
      show 10 ∉ ascii "," by decide]

end

end Json

end OmegaPlane
