import OmegaPlane.Data.Bytes

/-!
# White space and affixes of byte strings

Trimming removes the UTF-8 encodings of the Unicode white-space characters
from both ends.  Bytes that are not part of such an encoding stop it, whether
or not they are valid UTF-8.
-/

namespace OmegaPlane.Text

/-- Tab, line feed, vertical tab, form feed, carriage return and blank. -/
def isSpace1 (a : UInt8) : Bool :=
  (9 ≤ a.toNat ∧ a.toNat ≤ 13) ∨ a = 32

/-- U+0085 and U+00A0. -/
def isSpace2 (a b : UInt8) : Bool :=
  a = 0xC2 ∧ (b = 0x85 ∨ b = 0xA0)

/-- U+1680, U+2000 to U+200A, U+2028, U+2029, U+202F, U+205F and U+3000. -/
def isSpace3 (a b c : UInt8) : Bool :=
  (a = 0xE1 ∧ b = 0x9A ∧ c = 0x80) ∨
    (a = 0xE2 ∧ b = 0x80 ∧ ((0x80 ≤ c.toNat ∧ c.toNat ≤ 0x8A) ∨ c = 0xA8 ∨ c = 0xA9 ∨ c = 0xAF)) ∨
    (a = 0xE2 ∧ b = 0x81 ∧ c = 0x9F) ∨
    (a = 0xE3 ∧ b = 0x80 ∧ c = 0x80)

/-- Drop leading groups of one, two or three bytes that stand for white
space. -/
@[simp]
def trimWith (two : UInt8 → UInt8 → Bool) (three : UInt8 → UInt8 → UInt8 → Bool) :
    Bytes → Bytes
  | [] => []
  | a :: rest =>
    if isSpace1 a then trimWith two three rest
    else
      match rest with
      | [] => [a]
      | b :: rest =>
        if two a b then trimWith two three rest
        else
          match rest with
          | [] => [a, b]
          | c :: rest =>
            if three a b c then trimWith two three rest
            else a :: b :: c :: rest

/-- Remove white space from both ends; the right end is read backwards. -/
def trimSpace (text : Bytes) : Bytes :=
  let left := trimWith isSpace2 isSpace3 text
  (trimWith (fun a b => isSpace2 b a) (fun a b c => isSpace3 c b a) left.reverse).reverse

/-- `text` starts with `affix`. -/
def hasPrefix (text affix : Bytes) : Bool :=
  affix.isPrefixOf text

/-- `text` ends with `affix`. -/
def hasSuffix (text affix : Bytes) : Bool :=
  affix.isSuffixOf text

/-- `part` occurs in `text`. -/
def contains (text part : Bytes) : Bool :=
  text.tails.any (hasPrefix · part)

/-- The text around the first occurrence of a separator. -/
def cut (sep : Bytes) : Bytes → Option (Bytes × Bytes)
  | [] => if sep = [] then some ([], []) else none
  | byte :: rest =>
    if hasPrefix (byte :: rest) sep then some ([], (byte :: rest).drop sep.length)
    else (cut sep rest).map fun (before, after) => (byte :: before, after)

/-- The words of a text between white space, given the bytes of the word read so
far in reverse. -/
@[simp]
def fieldsFrom (word : Bytes) : Bytes → List Bytes
  | [] => if word = [] then [] else [word.reverse]
  | a :: rest =>
    let words := if word = [] then [] else [word.reverse]
    if isSpace1 a then words ++ fieldsFrom [] rest
    else
      match rest with
      | [] => fieldsFrom (a :: word) []
      | b :: rest =>
        if isSpace2 a b then words ++ fieldsFrom [] rest
        else
          match rest with
          | [] => fieldsFrom (a :: word) [b]
          | c :: rest =>
            if isSpace3 a b c then words ++ fieldsFrom [] rest
            else fieldsFrom (a :: word) (b :: c :: rest)

def fields (text : Bytes) : List Bytes :=
  fieldsFrom [] text

/-- Replace every occurrence of a key by its value, in one pass from the left;
the next `skip` bytes belong to a key already replaced. -/
def replaceFrom (pairs : List (Bytes × Bytes)) : Nat → Bytes → Bytes
  | _, [] => []
  | skip + 1, _ :: rest => replaceFrom pairs skip rest
  | 0, byte :: rest =>
    match pairs.find? fun pair => hasPrefix (byte :: rest) pair.1 with
    | some (key, value) => value ++ replaceFrom pairs (key.length - 1) rest
    | none => byte :: replaceFrom pairs 0 rest

def replace (pairs : List (Bytes × Bytes)) (text : Bytes) : Bytes :=
  replaceFrom pairs 0 text

theorem trimWith_of_solid {two : UInt8 → UInt8 → Bool} {three : UInt8 → UInt8 → UInt8 → Bool}
    {first : UInt8} (one : isSpace1 first = false) (two_eq : ∀ b, two first b = false)
    (three_eq : ∀ b c, three first b c = false) (rest : Bytes) :
    trimWith two three (first :: rest) = first :: rest := by
  rcases rest with _ | ⟨b, _ | ⟨c, rest⟩⟩ <;> simp [one, two_eq, three_eq]

/-- A text between braces has no white space to remove. -/
theorem trimSpace_braces (inside : Bytes) :
    trimSpace (123 :: (inside ++ [125])) = 123 :: (inside ++ [125]) := by
  have left := @trimWith_of_solid isSpace2 isSpace3 123 (by decide) (by simp [isSpace2])
    (by simp [isSpace3]) (inside ++ [125])
  have right := @trimWith_of_solid (fun a b => isSpace2 b a) (fun a b c => isSpace3 c b a) 125
    (by decide) (by simp [isSpace2]) (by simp [isSpace3]) (123 :: inside).reverse
  rw [trimSpace, left]
  simp only [List.reverse_cons, List.reverse_append, List.reverse_nil, List.nil_append,
    List.cons_append] at right ⊢
  rw [right]
  simp

@[simp]
theorem hasPrefix_append (affix text : Bytes) : hasPrefix (affix ++ text) affix = true := by
  simp [hasPrefix]

@[simp]
theorem hasSuffix_append (text affix : Bytes) : hasSuffix (text ++ affix) affix = true := by
  simp [hasSuffix]

variable {byte : UInt8} {text : Bytes}

/-- A separator of one absent byte does not occur. -/
theorem cut_eq_none (absent : byte ∉ text) : cut [byte] text = none := by
  induction text with
  | nil => rfl
  | cons first rest ih =>
    rw [List.mem_cons, not_or] at absent
    simp [cut, hasPrefix, absent.1, ih absent.2]

/-- What follows a text does not move the first occurrence of a byte. -/
theorem cut_append_right {before after : Bytes} (more : Bytes)
    (isCut : cut [byte] text = some (before, after)) :
    cut [byte] (text ++ more) = some (before, after ++ more) := by
  induction text generalizing before with
  | nil => cases isCut
  | cons first rest ih =>
  rw [List.cons_append, cut]
  rw [cut] at isCut
  by_cases same : byte = first
  · simp_all [hasPrefix]
  simp only [hasPrefix, List.isPrefixOf, beq_eq_false_iff_ne.mpr same, Bool.and_true,
    Bool.false_eq_true, if_false] at isCut ⊢
  obtain ⟨⟨front, back⟩, isRest, isBoth⟩ := Option.map_eq_some_iff.mp isCut
  obtain ⟨rfl, rfl⟩ := Prod.mk.inj isBoth
  rw [ih isRest]
  rfl

/-- The first occurrence of a separator is the one after a text without the
separator's second byte, which is not its first byte either. -/
theorem cut_append {first second : UInt8} {sep before : Bytes} (after : Bytes)
    (absent : second ∉ before) (differ : first ≠ second) :
    cut (first :: second :: sep) (before ++ first :: second :: sep ++ after) =
      some (before, after) := by
  induction before with
  | nil => simp [cut, hasPrefix]
  | cons byte rest ih =>
  rw [List.mem_cons, not_or] at absent
  -- an occurrence here would have the second byte at the start of what follows
  have later : hasPrefix (byte :: (rest ++ first :: second :: sep ++ after))
      (first :: second :: sep) = false := by
    cases rest with
    | nil => simp [hasPrefix, List.isPrefixOf, differ.symm]
    | cons next =>
      have nextDiffers : second ≠ next := fun same => absent.2 (by simp [same])
      simp [hasPrefix, List.isPrefixOf, nextDiffers]
  rw [List.cons_append, List.cons_append, cut, later, ih absent.2]
  rfl

/-! ## Words joined again -/

/-- How many bytes of white space the text starts with. -/
def spaceWidth : Bytes → Nat
  | [] => 0
  | [a] => if isSpace1 a then 1 else 0
  | [a, b] => if isSpace1 a then 1 else if isSpace2 a b then 2 else 0
  | a :: b :: c :: _ =>
    if isSpace1 a then 1 else if isSpace2 a b then 2 else if isSpace3 a b c then 3 else 0

theorem fieldsFrom_cons (word : Bytes) (a : UInt8) (rest : Bytes) :
    fieldsFrom word (a :: rest) =
      if spaceWidth (a :: rest) = 0 then fieldsFrom (a :: word) rest
      else (if word = [] then [] else [word.reverse]) ++
        fieldsFrom [] ((a :: rest).drop (spaceWidth (a :: rest))) := by
  rw [fieldsFrom.eq_def]
  rcases rest with _ | ⟨b, _ | ⟨c, rest⟩⟩ <;>
    simp only [spaceWidth] <;> split_ifs <;> simp_all

/-- White space stays when the text goes on. -/
theorem spaceWidth_of_append {text more : Bytes} (nonempty : text ≠ [])
    (none : spaceWidth (text ++ more) = 0) : spaceWidth text = 0 := by
  rcases text with _ | ⟨a, _ | ⟨b, _ | ⟨c, text⟩⟩⟩
  · contradiction
  · rcases more with _ | ⟨b, _ | ⟨c, more⟩⟩ <;>
      simp only [spaceWidth, List.cons_append, List.nil_append] at none ⊢ <;>
      split_ifs at none ⊢ <;> rfl
  · rcases more with _ | ⟨c, more⟩ <;>
      simp only [spaceWidth, List.cons_append, List.nil_append] at none ⊢ <;>
      split_ifs at none ⊢ <;> rfl
  · exact none

/-- A blank begins no white space earlier. -/
theorem spaceWidth_append_blank {text : Bytes} (nonempty : text ≠ []) (none : spaceWidth text = 0)
    (more : Bytes) : spaceWidth (text ++ 32 :: more) = 0 := by
  rcases text with _ | ⟨a, _ | ⟨b, _ | ⟨c, text⟩⟩⟩
  · contradiction
  · rcases more with _ | ⟨c, more⟩ <;> simp_all [spaceWidth, isSpace2, isSpace3]
  · simp_all [spaceWidth, isSpace2, isSpace3]
  · exact none

/-- No white space begins in the word. -/
def Solid (word : Bytes) : Prop :=
  ∀ rest, rest <:+ word → rest ≠ [] → spaceWidth rest = 0

theorem fieldsFrom_append {word after : Bytes} (solid : Solid word) (acc : Bytes)
    (blank : after = [] ∨ after.head? = some 32) :
    fieldsFrom acc (word ++ after) = fieldsFrom (word.reverse ++ acc) after := by
  induction word generalizing acc with
  | nil => rfl
  | cons a word ih =>
  have here := solid _ List.suffix_rfl (List.cons_ne_nil a word)
  have still : spaceWidth (a :: (word ++ after)) = 0 := by
    rcases blank with rfl | blank
    · simpa using here
    · obtain ⟨more, rfl⟩ := List.head?_eq_some_iff.mp blank
      exact spaceWidth_append_blank (List.cons_ne_nil a word) here more
  rw [List.cons_append, fieldsFrom_cons, if_pos still,
    ih fun rest inside => solid rest (inside.trans (List.suffix_cons a word))]
  simp

/-- The words of a text are solid. -/
theorem solid_of_mem_fieldsFrom {acc text word : Bytes}
    (begun : ∀ rest, rest <:+ acc.reverse → rest ≠ [] → spaceWidth (rest ++ text) = 0)
    (member : word ∈ fieldsFrom acc text) : word ≠ [] ∧ Solid word := by
  induction length : text.length using Nat.strong_induction_on generalizing acc text with
  | _ n ih =>
  have close (member : word ∈ if acc = [] then [] else [acc.reverse]) : word ≠ [] ∧ Solid word := by
    split at member
    · cases member
    · obtain rfl := List.mem_singleton.mp member
      exact ⟨by simpa, fun rest inside nonempty =>
        spaceWidth_of_append nonempty (begun rest inside nonempty)⟩
  cases text with
  | nil => exact close (by simpa using member)
  | cons a text =>
  rw [fieldsFrom_cons] at member
  split at member
  · rename_i solid
    refine ih text.length (by simp at length; omega) (fun rest inside nonempty => ?_) member rfl
    rw [List.reverse_cons] at inside
    obtain rfl | ⟨earlier, rfl, before⟩ := List.suffix_concat_iff.mp inside
    · contradiction
    · cases earlier with
      | nil => exact solid
      | cons => simpa using begun _ before (List.cons_ne_nil _ _)
  · rename_i space
    rcases List.mem_append.mp member with member | member
    · exact close member
    refine ih _ ?_ (fun rest inside nonempty => ?_) member rfl
    · simp at length ⊢
      omega
    · exact absurd (List.suffix_nil.mp inside) nonempty

/-- The words of a text, joined by blanks, are the words of that text. -/
theorem fields_intercalate_fields (text : Bytes) :
    fields ((ascii " ").intercalate (fields text)) = fields text := by
  have solid : ∀ word ∈ fields text, word ≠ [] ∧ Solid word := fun word =>
    solid_of_mem_fieldsFrom fun rest inside nonempty =>
      absurd (List.suffix_nil.mp inside) nonempty
  generalize fields text = words at solid
  induction words with
  | nil => rfl
  | cons word words ih =>
  obtain ⟨nonempty, plain⟩ := solid word List.mem_cons_self
  have rest := ih fun other member => solid other (List.mem_cons_of_mem _ member)
  cases words with
  | nil =>
    have whole := @fieldsFrom_append word [] plain [] (.inl rfl)
    simpa [fields, nonempty] using whole
  | cons next words =>
    have blank (text : Bytes) : spaceWidth (32 :: text) = 1 := by
      rcases text with _ | ⟨_, _ | ⟨_, _⟩⟩ <;> rfl
    have whole := @fieldsFrom_append word (32 :: (ascii " ").intercalate (next :: words)) plain []
      (.inr rfl)
    rw [fieldsFrom_cons, blank] at whole
    have joined : _ = word :: next :: words :=
      whole.trans (by simpa [fields, nonempty] using rest)
    simpa [fields, nonempty, List.intercalate, List.intersperse, ascii] using joined

example : fields (ascii " read  write\n") = [ascii "read", ascii "write"] := by decide +kernel

example : replace [(ascii "<a>", ascii "<b>"), (ascii "<b>", ascii "x")] (ascii "<a>/<b>/c") =
    ascii "<b>/x/c" := by decide +kernel

example : trimSpace (ascii " \ta b\n") = ascii "a b" := by decide +kernel

end OmegaPlane.Text
