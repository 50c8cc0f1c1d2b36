import OmegaPlane.Data.Text

/-!
# Templates

A template is a text in which placeholders stand for values.  It is read as a
sequence of bytes and placeholders, which the values of a replacement fill.  A
value that does not hold a separator stays in the field it stands in, and a field
with one placeholder only gives its value away.
-/

namespace OmegaPlane.Template

inductive Token where
  | byte (value : UInt8)
  | hole (key : Bytes)
  deriving DecidableEq

/-- The tokens of a text, given that the next `skip` bytes belong to a placeholder
already read. -/
def scanFrom (keys : List Bytes) : Nat → Bytes → List Token
  | _, [] => []
  | skip + 1, _ :: rest => scanFrom keys skip rest
  | 0, byte :: rest =>
    match keys.find? fun key => Text.hasPrefix (byte :: rest) key with
    | some key => .hole key :: scanFrom keys (key.length - 1) rest
    | none => .byte byte :: scanFrom keys 0 rest

def scan (keys : List Bytes) (text : Bytes) : List Token :=
  scanFrom keys 0 text

/-- The value of the first pair with a key. -/
def valueOf (pairs : List (Bytes × Bytes)) (key : Bytes) : Bytes :=
  ((pairs.find? fun pair => pair.1 = key).map Prod.snd).getD []

def fill (value : Bytes → Bytes) (tokens : List Token) : Bytes :=
  tokens.flatMap fun
    | .byte byte => [byte]
    | .hole key => value key

@[simp]
theorem fill_nil (value : Bytes → Bytes) : fill value [] = [] :=
  rfl

@[simp]
theorem fill_byte (value : Bytes → Bytes) (byte : UInt8) (tokens : List Token) :
    fill value (.byte byte :: tokens) = byte :: fill value tokens :=
  rfl

@[simp]
theorem fill_key (value : Bytes → Bytes) (key : Bytes) (tokens : List Token) :
    fill value (.hole key :: tokens) = value key ++ fill value tokens :=
  rfl

variable {first second : Bytes → Bytes} {tokens : List Token}

variable {text key : Bytes} {pairs : List (Bytes × Bytes)} {keys : List Bytes}

theorem splitOn_append_of_notMem {α : Type*} [DecidableEq α] {sep : α} {front : List α}
    (clean : sep ∉ front) (rest : List α) :
    (front ++ rest).splitOn sep = (rest.splitOn sep).modifyHead (front ++ ·) := by
  induction front with
  | nil => cases fields : rest.splitOn sep <;> simp [fields]
  | cons first front ih =>
    rw [List.mem_cons, not_or] at clean
    rw [List.cons_append, List.splitOn, List.splitOnP_cons_eq_if_modifyHead, if_neg (by simpa using Ne.symm clean.1),
      ← List.splitOn, ih clean.2, List.modifyHead_modifyHead]
    rfl

/-- Values without the separator leave the fields of a template apart. -/
theorem splitOn_fill {sep : UInt8} {value : Bytes → Bytes}
    (clean : ∀ key, .hole key ∈ tokens → sep ∉ value key) :
    (fill value tokens).splitOn sep = (tokens.splitOn (.byte sep)).map (fill value) := by
  induction tokens with
  | nil => rfl
  | cons token tokens ih =>
  have rest := ih fun key member => clean key (List.mem_cons_of_mem _ member)
  have keep : ∀ fields : List (List Token),
      (fields.modifyHead (token :: ·)).map (fill value) =
        (fields.map (fill value)).modifyHead (fill value [token] ++ ·) := by
    intro fields
    cases fields with
    | nil => rfl
    | cons => cases token <;> simp
  cases token with
  | byte read =>
    rw [fill_byte, List.splitOn, List.splitOnP_cons_eq_if_modifyHead, List.splitOn,
      List.splitOnP_cons_eq_if_modifyHead]
    by_cases isSep : read = sep
    · rw [if_pos (by simpa using isSep), if_pos (by simpa using isSep), ← List.splitOn, rest]
      rfl
    · rw [if_neg (by simpa using isSep), if_neg (by simpa using isSep), ← List.splitOn, rest,
        ← List.splitOn, keep]
      rfl
  | hole key =>
    rw [fill_key, splitOn_append_of_notMem (clean key List.mem_cons_self), rest,
      List.splitOn, List.splitOn, List.splitOnP_cons_eq_if_modifyHead, if_neg (by simp), keep]
    simp

end OmegaPlane.Template
