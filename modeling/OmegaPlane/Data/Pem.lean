import Mathlib.Data.List.TakeWhile
import OmegaPlane.Data.Base64
import OmegaPlane.Data.Text

/-!
# PEM blocks

The encoder and decoder of the modelled library.  The encoder breaks the base64
text into lines of 64 characters.  The decoder finds the next well-formed block
and returns it with the text after it; blocks that are not well formed are
passed over.  Headers are skipped, as no caller reads them.
-/

namespace OmegaPlane.Pem

open Text

/-- A PEM block. -/
structure Block where
  type : Bytes
  bytes : Bytes
  deriving DecidableEq

def beginMark : Bytes := ascii "-----BEGIN "

def endMark : Bytes := ascii "-----END "

def endOfLine : Bytes := ascii "-----"

/-! ## Encoding -/

/-- Break text into lines of 64 characters, `column` of which are written. -/
def breakLines (column : Nat) : Bytes → Bytes
  | [] => if column = 0 then [] else [10]
  | char :: rest =>
    if column + 1 = 64 then char :: 10 :: breakLines 0 rest
    else char :: breakLines (column + 1) rest

/-- The PEM text of a block. -/
def encodeToMemory (block : Block) : Bytes :=
  beginMark ++ (block.type ++ endOfLine ++ 10 ::
    (breakLines 0 (Base64.encodeToString block.bytes) ++
      (endMark ++ (block.type ++ endOfLine ++ [10]))))

/-! ## Decoding -/

/-- Remove blanks and tabs from the right end. -/
def trimRight (line : Bytes) : Bytes :=
  (line.reverse.dropWhile fun char => char = 32 ∨ char = 9).reverse

/-- The first line, without its line end and trailing blanks, and the rest. -/
def getLine (data : Bytes) : Bytes × Bytes :=
  match data.dropWhile (· ≠ 10) with
  | [] => (trimRight data, [])
  | _ :: rest =>
    let line := data.takeWhile (· ≠ 10)
    (trimRight (if line.getLast? = some 13 then line.dropLast else line), rest)

/-- Skip header lines: whether there were any, and the text from the first line
without a colon on; nothing when the text ends before. -/
def skipHeaders : Nat → Bool → Bytes → Option (Bool × Bytes)
  | 0, _, _ => none
  | _ + 1, _, [] => none
  | fuel + 1, seen, rest =>
    match cut [58] (getLine rest).1 with
    | none => some (seen, rest)
    | some _ => skipHeaders fuel true (getLine rest).2

/-- The body and the text after the end mark.  Without headers the end mark may
follow at once. -/
def splitEnd (headers : Bool) (rest : Bytes) : Option (Bytes × Bytes) :=
  if !headers && hasPrefix rest endMark then some ([], rest.drop endMark.length)
  else cut (10 :: endMark) rest

/-- The block with the body given, if the end line repeats its type and the
body decodes, and the text after the end line. -/
def closeBlock (type body after : Bytes) : Option (Block × Bytes) :=
  if hasPrefix after (type ++ endOfLine) &&
      (getLine (after.drop (type ++ endOfLine).length)).1.isEmpty then
    (Base64.decodeString (body.filter fun char => !(char = 32 ∨ char = 9))).map fun bytes =>
      (⟨type, bytes⟩, (getLine after).2)
  else
    none

/-- The text after the next begin mark, which stands at the start of a line. -/
def findBegin (data : Bytes) : Option Bytes :=
  if hasPrefix data beginMark then some (data.drop beginMark.length)
  else (cut (10 :: beginMark) data).map Prod.snd

def decodeFrom : Nat → Bytes → Option (Block × Bytes)
  | 0, _ => none
  | fuel + 1, data =>
    match findBegin data with
    | none => none
    | some rest =>
      let (typeLine, rest) := getLine rest
      if !hasSuffix typeLine endOfLine then decodeFrom fuel rest
      else
        let type := typeLine.take (typeLine.length - endOfLine.length)
        match skipHeaders (rest.length + 1) false rest with
        | none => none
        | some (headers, rest) =>
          match (splitEnd headers rest).bind fun (body, after) =>
              closeBlock type body after with
          | none => decodeFrom fuel rest
          | some found => some found

/-- The next block and the text after it. -/
def decode (data : Bytes) : Option (Block × Bytes) :=
  decodeFrom (data.length + 1) data

def blocksFrom : Nat → Bytes → List Block
  | 0, _ => []
  | fuel + 1, data =>
    match decode data with
    | none => []
    | some (block, rest) => block :: blocksFrom fuel rest

/-- All blocks of a text, one decoding after the other. -/
def blocks (data : Bytes) : List Block :=
  blocksFrom (data.length + 1) data

/-! ## Round trip -/

variable {char : UInt8} {bytes line lines rest : Bytes} {fuel : Nat} {encoded : List Block}

/-- A base64 character or padding: neither white space nor a mark of PEM. -/
theorem plain_of_mem_encodeToString (member : char ∈ Base64.encodeToString bytes) :
    char ≠ 10 ∧ char ≠ 13 ∧ char ≠ 32 ∧ char ≠ 9 ∧ char ≠ 45 ∧ char ≠ 58 := by
  have plain : ∀ n < 64, Base64.encodeChar n ≠ 10 ∧ Base64.encodeChar n ≠ 13 ∧
      Base64.encodeChar n ≠ 32 ∧ Base64.encodeChar n ≠ 9 ∧ Base64.encodeChar n ≠ 45 ∧
      Base64.encodeChar n ≠ 58 := by
    decide
  rcases Base64.mem_encodeToString member with rfl | ⟨n, bound, rfl⟩
  · decide
  · exact plain n bound

theorem mem_breakLines {column : Nat} {text : Bytes} (member : char ∈ breakLines column text) :
    char = 10 ∨ char ∈ text := by
  induction text generalizing column with
  | nil =>
    unfold breakLines at member
    split at member
    · simp at member
    · exact .inl (List.mem_singleton.mp member)
  | cons first rest ih =>
    unfold breakLines at member
    split at member
    · rcases List.mem_cons.mp member with rfl | member
      · exact .inr (by simp)
      · rcases List.mem_cons.mp member with rfl | member
        · exact .inl rfl
        · exact (ih member).imp id fun later => by simp [later]
    · rcases List.mem_cons.mp member with rfl | member
      · exact .inr (by simp)
      · exact (ih member).imp id fun later => by simp [later]

/-- Line breaks are all that is added. -/
theorem filter_breakLines {column : Nat} {text : Bytes}
    (plain : ∀ char ∈ text, Base64.isLineBreak char = false) :
    ((breakLines column text).filter fun char => !Base64.isLineBreak char) = text := by
  induction text generalizing column with
  | nil =>
    unfold breakLines
    split <;> rfl
  | cons first rest ih =>
    have firstPlain := plain first (by simp)
    have restPlain : ∀ char ∈ rest, Base64.isLineBreak char = false := fun char member =>
      plain char (by simp [member])
    have newline : Base64.isLineBreak 10 = true := rfl
    unfold breakLines
    split
    · simp [firstPlain, newline, ih restPlain]
    · simp [firstPlain, ih restPlain]

/-- Text that is not empty ends in a line break. -/
theorem breakLines_eq_concat {column : Nat} {text : Bytes} (started : column ≠ 0 ∨ text ≠ []) :
    ∃ lines, breakLines column text = lines ++ [10] := by
  induction text generalizing column with
  | nil =>
    refine ⟨[], ?_⟩
    simp [breakLines, started.resolve_right (by simp)]
  | cons first rest ih =>
    unfold breakLines
    split
    · by_cases last : rest = []
      · exact ⟨[first], by simp [last, breakLines]⟩
      · obtain ⟨lines, ends⟩ := @ih 0 (.inr last)
        exact ⟨first :: 10 :: lines, by simp [ends]⟩
    · obtain ⟨lines, ends⟩ := @ih (column + 1) (.inl (by simp))
      exact ⟨first :: lines, by simp [ends]⟩

/-- A line break ends the first line. -/
theorem getLine_append (rest : Bytes) (single : 10 ∉ line) (noReturn : line.getLast? ≠ some 13) :
    getLine (line ++ 10 :: rest) = (trimRight line, rest) := by
  have kept : ∀ char ∈ line, (decide (char ≠ 10)) = true := by
    intro char member
    have different : char ≠ 10 := by
      rintro rfl
      exact single member
    simpa using different
  have dropped : (line ++ 10 :: rest).dropWhile (· ≠ 10) = 10 :: rest := by
    rw [List.dropWhile_append_of_pos kept]
    rfl
  have taken : (line ++ 10 :: rest).takeWhile (· ≠ 10) = line := by
    rw [List.takeWhile_append_of_pos kept]
    simp
  rw [getLine, dropped]
  simp only [taken, noReturn, if_false]

theorem trimRight_append_endOfLine (line : Bytes) :
    trimRight (line ++ endOfLine) = line ++ endOfLine := by
  simp [trimRight, endOfLine, ascii]

/-- The body of an encoded block, line by line. -/
theorem body_spec (nonempty : bytes ≠ []) :
    ∃ lines, breakLines 0 (Base64.encodeToString bytes) = lines ++ [10] ∧
      (∀ char ∈ lines, char ≠ 13 ∧ char ≠ 32 ∧ char ≠ 9 ∧ char ≠ 45 ∧ char ≠ 58) ∧
      Base64.decodeString lines = some bytes := by
  have text : Base64.encodeToString bytes ≠ [] := by
    unfold Base64.encodeToString
    split
    · exact absurd rfl nonempty
    all_goals simp
  obtain ⟨lines, ends⟩ := @breakLines_eq_concat 0 _ (.inr text)
  refine ⟨lines, ends, ?_, ?_⟩
  · intro char member
    have inBody : char ∈ breakLines 0 (Base64.encodeToString bytes) := by
      rw [ends]
      simp [member]
    rcases mem_breakLines inBody with rfl | plain
    · decide
    · exact (plain_of_mem_encodeToString plain).2
  · apply Base64.decodeString_of_filter
    have plain : ∀ char ∈ Base64.encodeToString bytes, Base64.isLineBreak char = false := by
      intro char member
      have facts := plain_of_mem_encodeToString member
      simp [Base64.isLineBreak, facts.1, facts.2.1]
    have whole := @filter_breakLines 0 _ plain
    rw [ends] at whole
    simpa [Base64.isLineBreak] using whole

theorem mem_of_mem_trimRight (member : char ∈ trimRight line) : char ∈ line := by
  have inDropped := List.mem_reverse.mp member
  exact List.mem_reverse.mp ((List.dropWhile_suffix _).subset inDropped)

/-- The first line lies before every line break. -/
theorem mem_of_mem_getLine (member : char ∈ (getLine (lines ++ 10 :: rest)).1) : char ∈ lines := by
  have taken : ∀ char ∈ (lines ++ 10 :: rest).takeWhile (· ≠ 10), char ∈ lines := by
    intro char inTaken
    rw [List.takeWhile_append] at inTaken
    split at inTaken
    · simpa using inTaken
    · exact (List.takeWhile_prefix _).subset inTaken
  unfold getLine at member
  split at member
  · -- the text has a line break
    rename_i none
    have absent := List.dropWhile_eq_nil_iff.mp none 10 (by simp)
    simp at absent
  · have inLine := mem_of_mem_trimRight member
    split at inLine
    · exact taken char (List.mem_of_mem_dropLast inLine)
    · exact taken char inLine

theorem skipHeaders_of_plain {seen : Bool} (nonempty : rest ≠ []) (plain : 58 ∉ (getLine rest).1) :
    skipHeaders (fuel + 1) seen rest = some (seen, rest) := by
  cases rest with
  | nil => exact absurd rfl nonempty
  | cons =>
    rw [skipHeaders, cut_eq_none plain]
    simp

theorem getLine_typeLine {type : Bytes} (rest : Bytes) (single : 10 ∉ type) :
    getLine (type ++ endOfLine ++ 10 :: rest) = (type ++ endOfLine, rest) := by
  have noBreak : 10 ∉ type ++ endOfLine := by
    rw [List.mem_append, not_or]
    exact ⟨single, by decide⟩
  have noReturn : (type ++ endOfLine).getLast? ≠ some 13 := by
    simp [endOfLine, ascii]
  rw [getLine_append rest noBreak noReturn, trimRight_append_endOfLine]

theorem splitEnd_body (after : Bytes) (plain : ∀ char ∈ lines, char ≠ 45) :
    splitEnd false (lines ++ 10 :: (endMark ++ after)) = some (lines, after) := by
  have notAtOnce : hasPrefix (lines ++ 10 :: (endMark ++ after)) endMark = false := by
    cases lines with
    | nil => rfl
    | cons first =>
      have firstPlain : (45 : UInt8) ≠ first := (plain first (by simp)).symm
      simp [hasPrefix, endMark, ascii, List.isPrefixOf, firstPlain]
  have marks : endMark = 45 :: ascii "----END " := rfl
  have absent : (45 : UInt8) ∉ lines := fun member => plain 45 member rfl
  have found := @cut_append 10 45 (ascii "----END ") lines after absent (by decide)
  rw [splitEnd, notAtOnce, marks]
  simpa using found

theorem closeBlock_body {type lines bytes tail : Bytes} (single : 10 ∉ type)
    (plain : ∀ char ∈ lines, char ≠ 32 ∧ char ≠ 9)
    (decoded : Base64.decodeString lines = some bytes) :
    closeBlock type lines (type ++ endOfLine ++ 10 :: tail) = some (⟨type, bytes⟩, tail) := by
  have noBlanks : (lines.filter fun char => !(decide (char = 32 ∨ char = 9))) = lines := by
    apply List.filter_eq_self.mpr
    intro char member
    simp [plain char member]
  rw [closeBlock, noBlanks, decoded, getLine_typeLine tail single, List.drop_left, hasPrefix_append]
  simp [getLine, trimRight]

/-- The block an encoding starts with is decoded, and the text after it is
left. -/
theorem decode_encodeToMemory (block : Block) (tail : Bytes) (single : 10 ∉ block.type)
    (nonempty : block.bytes ≠ []) :
    decode (encodeToMemory block ++ tail) = some (block, tail) := by
  obtain ⟨lines, body, plain, decoded⟩ := body_spec nonempty
  have found : findBegin (encodeToMemory block ++ tail) =
      some (block.type ++ endOfLine ++ 10 :: (lines ++ 10 ::
        (endMark ++ (block.type ++ endOfLine ++ 10 :: tail)))) := by
    rw [encodeToMemory, body, findBegin, List.append_assoc, hasPrefix_append, if_pos rfl,
      List.drop_left]
    simp
  have noHeaders : 58 ∉ (getLine (lines ++ 10 ::
      (endMark ++ (block.type ++ endOfLine ++ 10 :: tail)))).1 := fun member =>
    (plain 58 (mem_of_mem_getLine member)).2.2.2.2 rfl
  have closes := @closeBlock_body block.type lines block.bytes tail single
    (fun char member => ⟨(plain char member).2.1, (plain char member).2.2.1⟩) decoded
  rw [decode, decodeFrom, found]
  simp only [getLine_typeLine _ single, hasSuffix_append, Bool.not_true, Bool.false_eq_true,
    if_false, List.length_append, Nat.add_sub_cancel, List.take_left']
  rw [skipHeaders_of_plain (by simp) noHeaders]
  simp only [splitEnd_body _ fun char member => (plain char member).2.2.2.1, Option.bind_some,
    closes]

/-- Nothing is found in an empty text. -/
theorem decode_nil : decode [] = none :=
  rfl

/-- With enough turns, concatenated encodings decode to the encoded blocks. -/
theorem blocksFrom_encodeToMemory
    (wellFormed : ∀ block ∈ encoded, 10 ∉ block.type ∧ block.bytes ≠ [])
    (bound : encoded.length < fuel) :
    blocksFrom fuel (encoded.flatMap encodeToMemory) = encoded := by
  induction encoded generalizing fuel with
  | nil =>
    cases fuel with
    | zero => rfl
    | succ => simp [blocksFrom, decode_nil]
  | cons block rest ih =>
    obtain ⟨single, nonempty⟩ := wellFormed block (by simp)
    cases fuel with
    | zero => simp at bound
    | succ fuel =>
    have restWellFormed : ∀ other ∈ rest, 10 ∉ other.type ∧ other.bytes ≠ [] :=
      fun other member => wellFormed other (by simp [member])
    have restBound : rest.length < fuel := by simpa using bound
    rw [List.flatMap_cons, blocksFrom, decode_encodeToMemory block _ single nonempty]
    simp only [ih restWellFormed restBound]

theorem length_le_flatMap_encodeToMemory (encoded : List Block) :
    encoded.length ≤ (encoded.flatMap encodeToMemory).length := by
  induction encoded with
  | nil => simp
  | cons block =>
  rw [List.flatMap_cons, List.length_append, List.length_cons]
  have nonempty : 1 ≤ (encodeToMemory block).length := by
    simp [encodeToMemory, beginMark, ascii]
  omega

/-- The blocks of concatenated encodings are the encoded blocks. -/
theorem blocks_encodeToMemory (wellFormed : ∀ block ∈ encoded, 10 ∉ block.type ∧ block.bytes ≠ []) :
    blocks (encoded.flatMap encodeToMemory) = encoded :=
  blocksFrom_encodeToMemory wellFormed
    (Nat.lt_succ_of_le (length_le_flatMap_encodeToMemory encoded))

/-- The first block is the one a single decoding finds. -/
theorem head_blocks (data : Bytes) : (blocks data).head? = (decode data).map Prod.fst := by
  rw [blocks, blocksFrom]
  cases decode data with
  | none => rfl
  | some => rfl

end OmegaPlane.Pem
