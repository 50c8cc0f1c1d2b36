import OmegaPlane.Data.Bytes

/-!
# Standard base64

Encoding with padding, and the decoder of the modelled library: it skips line
breaks anywhere, requires padding and does not check the unused bits of the
last character.
-/

namespace OmegaPlane.Base64

/-- The character of a six-bit value. -/
def encodeChar (n : Nat) : UInt8 :=
  UInt8.ofNat
    (if n < 26 then 65 + n
    else if n < 52 then 71 + n
    else if n < 62 then n - 4
    else if n = 62 then 43
    else 47)

/-- The six-bit value of a character of the alphabet. -/
def decodeChar (char : UInt8) : Option Nat :=
  let c := char.toNat
  if 65 ≤ c ∧ c ≤ 90 then some (c - 65)
  else if 97 ≤ c ∧ c ≤ 122 then some (c - 71)
  else if 48 ≤ c ∧ c ≤ 57 then some (c + 4)
  else if c = 43 then some 62
  else if c = 47 then some 63
  else none

/-- The padding character `=`. -/
def padChar : UInt8 := 61

/-- Carriage return and line feed. -/
def isLineBreak (char : UInt8) : Bool :=
  char = 13 ∨ char = 10

/-- Three bytes become four characters; the last group is padded. -/
@[simp]
def encodeToString : Bytes → Bytes
  | [] => []
  | [a] =>
    [encodeChar (a.toNat / 4), encodeChar (a.toNat % 4 * 16), padChar, padChar]
  | [a, b] =>
    [encodeChar (a.toNat / 4), encodeChar (a.toNat % 4 * 16 + b.toNat / 16),
      encodeChar (b.toNat % 16 * 4), padChar]
  | a :: b :: c :: rest =>
    encodeChar (a.toNat / 4) :: encodeChar (a.toNat % 4 * 16 + b.toNat / 16) ::
      encodeChar (b.toNat % 16 * 4 + c.toNat / 64) :: encodeChar (c.toNat % 64) ::
      encodeToString rest

/-- The URL alphabet without padding. -/
def rawURLEncodeToString (bytes : Bytes) : Bytes :=
  ((encodeToString bytes).filter (· ≠ padChar)).map fun char =>
    if char = 43 then 45 else if char = 47 then 95 else char

/-- Decode groups of four characters; only the last group may be padded. -/
def decodeGroups : Bytes → Option Bytes
  | [] => some []
  | a :: b :: c :: d :: rest => do
    let x ← decodeChar a
    let y ← decodeChar b
    if c = padChar then
      if d = padChar ∧ rest = [] then
        some [UInt8.ofNat (x * 4 + y / 16)]
      else
        none
    else
      let z ← decodeChar c
      if d = padChar then
        if rest = [] then
          some [UInt8.ofNat (x * 4 + y / 16), UInt8.ofNat (y % 16 * 16 + z / 4)]
        else
          none
      else
        let w ← decodeChar d
        let tail ← decodeGroups rest
        some (UInt8.ofNat (x * 4 + y / 16) :: UInt8.ofNat (y % 16 * 16 + z / 4) ::
          UInt8.ofNat (z % 4 * 64 + w) :: tail)
  | _ => none

/-- Decode text, skipping line breaks. -/
def decodeString (text : Bytes) : Option Bytes :=
  decodeGroups (text.filter fun char => !isLineBreak char)

variable {n : Nat} {bytes : Bytes} {char : UInt8}

theorem decodeChar_encodeChar (bound : n < 64) : decodeChar (encodeChar n) = some n := by
  have all : ∀ n < 64, decodeChar (encodeChar n) = some n := by decide
  exact all n bound

theorem encodeChar_ne_padChar (bound : n < 64) : encodeChar n ≠ padChar := by
  have all : ∀ n < 64, encodeChar n ≠ padChar := by decide
  exact all n bound

/-- Encoded text is made of alphabet characters and padding. -/
theorem mem_encodeToString (member : char ∈ encodeToString bytes) :
    char = padChar ∨ ∃ n < 64, char = encodeChar n := by
  induction bytes using encodeToString.induct with
  | case1 => simp at member
  | case2 a =>
    have bound := a.toNat_lt
    simp only [encodeToString, List.mem_cons, List.not_mem_nil, or_false] at member
    rcases member with rfl | rfl | rfl | rfl
    · exact .inr ⟨_, by omega, rfl⟩
    · exact .inr ⟨_, by omega, rfl⟩
    · exact .inl rfl
    · exact .inl rfl
  | case3 a b =>
    have aBound := a.toNat_lt
    have bBound := b.toNat_lt
    simp only [encodeToString, List.mem_cons, List.not_mem_nil, or_false] at member
    rcases member with rfl | rfl | rfl | rfl
    on_goal 4 => exact .inl rfl
    all_goals exact .inr ⟨_, by omega, rfl⟩
  | case4 a b c rest ih =>
    have aBound := a.toNat_lt
    have bBound := b.toNat_lt
    have cBound := c.toNat_lt
    simp only [encodeToString, List.mem_cons] at member
    rcases member with rfl | rfl | rfl | rfl | member
    on_goal 5 => exact ih member
    all_goals exact .inr ⟨_, by omega, rfl⟩

theorem decodeGroups_encodeToString (bytes : Bytes) :
    decodeGroups (encodeToString bytes) = some bytes := by
  induction bytes using encodeToString.induct with
  | case1 => rfl
  | case2 a =>
    have bound := a.toNat_lt
    have value : a.toNat / 4 * 4 + a.toNat % 4 * 16 / 16 = a.toNat := by omega
    simp only [encodeToString, decodeGroups,
      decodeChar_encodeChar (n := a.toNat / 4) (by omega),
      decodeChar_encodeChar (n := a.toNat % 4 * 16) (by omega), Option.bind_eq_bind,
      Option.bind_some, and_self, if_true, value]
    rw [UInt8.ofNat_toNat]
  | case3 a b =>
    have aBound := a.toNat_lt
    have bBound := b.toNat_lt
    have first : a.toNat / 4 * 4 + (a.toNat % 4 * 16 + b.toNat / 16) / 16 = a.toNat := by
      omega
    have second : (a.toNat % 4 * 16 + b.toNat / 16) % 16 * 16 + b.toNat % 16 * 4 / 4 = b.toNat := by
      omega
    simp only [encodeToString, decodeGroups,
      decodeChar_encodeChar (n := a.toNat / 4) (by omega),
      decodeChar_encodeChar (n := a.toNat % 4 * 16 + b.toNat / 16) (by omega),
      decodeChar_encodeChar (n := b.toNat % 16 * 4) (by omega),
      encodeChar_ne_padChar (n := b.toNat % 16 * 4) (by omega), Option.bind_eq_bind,
      Option.bind_some, if_true, if_false, first, second]
    rw [UInt8.ofNat_toNat, UInt8.ofNat_toNat]
  | case4 a b c rest ih =>
    have aBound := a.toNat_lt
    have bBound := b.toNat_lt
    have cBound := c.toNat_lt
    have first : a.toNat / 4 * 4 + (a.toNat % 4 * 16 + b.toNat / 16) / 16 = a.toNat := by
      omega
    have second :
        (a.toNat % 4 * 16 + b.toNat / 16) % 16 * 16 +
          (b.toNat % 16 * 4 + c.toNat / 64) / 4 = b.toNat := by
      omega
    have third : (b.toNat % 16 * 4 + c.toNat / 64) % 4 * 64 + c.toNat % 64 = c.toNat := by
      omega
    simp only [encodeToString, decodeGroups,
      decodeChar_encodeChar (n := a.toNat / 4) (by omega),
      decodeChar_encodeChar (n := a.toNat % 4 * 16 + b.toNat / 16) (by omega),
      decodeChar_encodeChar (n := b.toNat % 16 * 4 + c.toNat / 64) (by omega),
      decodeChar_encodeChar (n := c.toNat % 64) (by omega),
      encodeChar_ne_padChar (n := b.toNat % 16 * 4 + c.toNat / 64) (by omega),
      encodeChar_ne_padChar (n := c.toNat % 64) (by omega), Option.bind_eq_bind,
      Option.bind_some, if_false, first, second, third, ih]
    rw [UInt8.ofNat_toNat, UInt8.ofNat_toNat, UInt8.ofNat_toNat]

/-- Decoding text whose characters other than line breaks are those of an
encoding gives the encoded bytes back. -/
theorem decodeString_of_filter {text : Bytes}
    (content : (text.filter fun char => !isLineBreak char) = encodeToString bytes) :
    decodeString text = some bytes := by
  rw [decodeString, content, decodeGroups_encodeToString]

/-! ## The URL alphabet -/

def toURL (char : UInt8) : UInt8 :=
  if char = 43 then 45 else if char = 47 then 95 else char

def ofURL (char : UInt8) : UInt8 :=
  if char = 45 then 43 else if char = 95 then 47 else char

/-- Pad the last group. -/
def pad (chars : Bytes) : Bytes :=
  chars ++
    if chars.length % 4 = 2 then [padChar, padChar]
    else if chars.length % 4 = 3 then [padChar]
    else []

/-- Decode text in the URL alphabet without padding, skipping line breaks. -/
def rawURLDecodeString (text : Bytes) : Option Bytes :=
  let chars := text.filter fun char => !isLineBreak char
  if chars.any fun char => char = padChar ∨ char = 43 ∨ char = 47 then none
  else decodeGroups (pad (chars.map ofURL))

/-- A full group is not padded. -/
theorem pad_group (a b c d : UInt8) (rest : Bytes) :
    pad (a :: b :: c :: d :: rest) = a :: b :: c :: d :: pad rest := by
  have lengths : (rest.length + 1 + 1 + 1 + 1) % 4 = rest.length % 4 := by omega
  simp only [pad, List.length_cons, List.cons_append, lengths]

/-- Padding restores what was left out. -/
theorem pad_filter_encodeToString (bytes : Bytes) :
    pad ((encodeToString bytes).filter (· ≠ padChar)) = encodeToString bytes := by
  induction bytes using encodeToString.induct with
  | case1 => rfl
  | case2 a =>
    have bound := a.toNat_lt
    simp [pad, encodeChar_ne_padChar (n := a.toNat / 4) (by omega),
      encodeChar_ne_padChar (n := a.toNat % 4 * 16) (by omega)]
  | case3 a b =>
    have aBound := a.toNat_lt
    have bBound := b.toNat_lt
    simp [pad, encodeChar_ne_padChar (n := a.toNat / 4) (by omega),
      encodeChar_ne_padChar (n := a.toNat % 4 * 16 + b.toNat / 16) (by omega),
      encodeChar_ne_padChar (n := b.toNat % 16 * 4) (by omega)]
  | case4 a b c rest ih =>
    have aBound := a.toNat_lt
    have bBound := b.toNat_lt
    have cBound := c.toNat_lt
    have kept : (encodeToString (a :: b :: c :: rest)).filter (· ≠ padChar) =
        encodeChar (a.toNat / 4) :: encodeChar (a.toNat % 4 * 16 + b.toNat / 16) ::
          encodeChar (b.toNat % 16 * 4 + c.toNat / 64) :: encodeChar (c.toNat % 64) ::
          (encodeToString rest).filter (· ≠ padChar) := by
      simp [encodeChar_ne_padChar (n := a.toNat / 4) (by omega),
        encodeChar_ne_padChar (n := a.toNat % 4 * 16 + b.toNat / 16) (by omega),
        encodeChar_ne_padChar (n := b.toNat % 16 * 4 + c.toNat / 64) (by omega),
        encodeChar_ne_padChar (n := c.toNat % 64) (by omega)]
    rw [kept, pad_group, ih, encodeToString]

theorem ofURL_toURL (bound : n < 64) : ofURL (toURL (encodeChar n)) = encodeChar n := by
  have all : ∀ n < 64, ofURL (toURL (encodeChar n)) = encodeChar n := by decide
  exact all n bound

theorem toURL_plain (bound : n < 64) :
    isLineBreak (toURL (encodeChar n)) = false ∧ toURL (encodeChar n) ≠ padChar ∧
      toURL (encodeChar n) ≠ 43 ∧ toURL (encodeChar n) ≠ 47 := by
  have all : ∀ n < 64, isLineBreak (toURL (encodeChar n)) = false ∧
      toURL (encodeChar n) ≠ padChar ∧ toURL (encodeChar n) ≠ 43 ∧
      toURL (encodeChar n) ≠ 47 := by decide
  exact all n bound

theorem mem_rawURLEncodeToString (member : char ∈ rawURLEncodeToString bytes) :
    ∃ n < 64, char = toURL (encodeChar n) := by
  obtain ⟨source, kept, rfl⟩ := List.mem_map.mp member
  obtain ⟨encoded, notPad⟩ := List.mem_filter.mp kept
  obtain ⟨n, bound, rfl⟩ := (mem_encodeToString encoded).resolve_left (by simpa using notPad)
  exact ⟨n, bound, rfl⟩

theorem rawURLEncodeToString_ascii (member : char ∈ rawURLEncodeToString bytes) : char < 0x80 := by
  obtain ⟨n, bound, rfl⟩ := mem_rawURLEncodeToString member
  have all : ∀ n < 64, toURL (encodeChar n) < 0x80 := by decide
  exact all n bound

/-- Decoding gives the encoded bytes back. -/
theorem rawURLDecodeString_encode (bytes : Bytes) :
    rawURLDecodeString (rawURLEncodeToString bytes) = some bytes := by
  have noBreaks : (rawURLEncodeToString bytes).filter (fun char => !isLineBreak char) =
      rawURLEncodeToString bytes := by
    rw [List.filter_eq_self]
    intro char member
    obtain ⟨n, bound, rfl⟩ := mem_rawURLEncodeToString member
    simp [(toURL_plain bound).1]
  have plain : ((rawURLEncodeToString bytes).any fun char =>
      decide (char = padChar ∨ char = 43 ∨ char = 47)) = false := by
    rw [List.any_eq_false]
    intro char member
    obtain ⟨n, bound, rfl⟩ := mem_rawURLEncodeToString member
    simp [(toURL_plain bound).2]
  have back : (rawURLEncodeToString bytes).map ofURL =
      (encodeToString bytes).filter (· ≠ padChar) := by
    rw [rawURLEncodeToString, List.map_map]
    refine (List.map_congr_left ?_).trans (List.map_id _)
    intro char member
    obtain ⟨encoded, notPad⟩ := List.mem_filter.mp member
    obtain ⟨n, bound, rfl⟩ := (mem_encodeToString encoded).resolve_left (by simpa using notPad)
    exact ofURL_toURL bound
  rw [rawURLDecodeString, noBreaks, plain, if_neg Bool.false_ne_true, back,
    pad_filter_encodeToString, decodeGroups_encodeToString]

theorem rawURLEncodeToString_ne_nil (nonempty : bytes ≠ []) : rawURLEncodeToString bytes ≠ [] := by
  intro empty
  have decoded := rawURLDecodeString_encode bytes
  rw [empty] at decoded
  cases decoded
  exact nonempty rfl

end OmegaPlane.Base64
