import Mathlib.Data.List.Basic
import OmegaPlane.Data.Text

/-!
# Journals of lines

A journal holds one record a line.  A crash may leave a part of the last line,
which is skipped when the journal is loaded; an unreadable line anywhere else
is an error.
-/

namespace OmegaPlane.Journal

universe u

/-- How a record is written as a line and read back. -/
structure Format (α : Type u) where
  line : α → Bytes
  read : Bytes → Option α

variable {α : Type u} (format : Format α)

/-- The format keeps the records of a kind: a line is read back, has no line feed
and is not blank, and no proper part of it from the start is read. -/
structure Format.Lawful (kind : α → Prop) : Prop where
  read_line : ∀ {record}, kind record → format.read (format.line record) = some record
  feed : ∀ {record}, kind record → 10 ∉ format.line record
  solid : ∀ {record}, kind record → Text.trimSpace (format.line record) ≠ []
  torn : ∀ {record} {part : Bytes}, kind record → part <+: format.line record →
    part ≠ format.line record → format.read part = none

def render (records : List α) : Bytes :=
  records.flatMap fun record => format.line record ++ [10]

/-- The records of the lines; a line that cannot be read must be the last that is
not blank. -/
def parse : List Bytes → Option (List α)
  | [] => some []
  | line :: rest =>
    if Text.trimSpace line = [] then parse rest
    else
      match format.read line with
      | some record => (parse rest).map (record :: ·)
      | none => if rest.all fun later => Text.trimSpace later = [] then some [] else none

def load (journal : Bytes) : Option (List α) :=
  parse format (journal.splitOn 10)

variable {format} {kind : α → Prop}

variable {line torn : Bytes} {records : List α}

private theorem isFeed_eq_false (feed : 10 ∉ line) : ∀ byte ∈ line, (byte == 10) = false := by
  intro byte member
  rw [beq_eq_false_iff_ne]
  rintro rfl
  exact feed member

theorem splitOn_append_feed (rest : Bytes) (feed : 10 ∉ line) :
    (line ++ 10 :: rest).splitOn 10 = line :: rest.splitOn 10 :=
  List.splitOnP_append_cons_of_forall_mem (isFeed_eq_false feed) 10 rfl rest

theorem splitOn_of_notMem (feed : 10 ∉ line) : line.splitOn 10 = [line] :=
  List.splitOnP_eq_singleton (isFeed_eq_false feed)

/-- The lines of a journal come before the lines of what follows it. -/
theorem load_render_append (lawful : format.Lawful kind) (kinds : ∀ record ∈ records, kind record)
    (tail : Bytes) :
    load format (render format records ++ tail) = (load format tail).map (records ++ ·) := by
  induction records with
  | nil => simp [render]
  | cons record rest ih =>
  have own := kinds record List.mem_cons_self
  have step : render format (record :: rest) ++ tail =
      format.line record ++ 10 :: (render format rest ++ tail) := by
    simp [render]
  rw [step, load, splitOn_append_feed _ (lawful.feed own), parse, if_neg (lawful.solid own),
    lawful.read_line own]
  change (load format (render format rest ++ tail)).map _ = _
  rw [ih fun other member => kinds other (List.mem_cons_of_mem _ member), Option.map_map]
  rfl

@[simp]
theorem load_nil : load format [] = some [] :=
  rfl

/-- A journal is loaded as it was written. -/
theorem load_render (lawful : format.Lawful kind) (kinds : ∀ record ∈ records, kind record) :
    load format (render format records) = some records := by
  have loaded := load_render_append lawful kinds []
  simpa using loaded

/-- A last line that cannot be read is passed over. -/
theorem load_unreadable (feed : 10 ∉ line) (unreadable : format.read line = none) :
    load format (line ++ [10]) = some [] := by
  rw [load, splitOn_append_feed [] feed, List.splitOn_nil, parse]
  have blank : Text.trimSpace [] = [] := by decide
  split
  · simp [parse, blank]
  · simp [unreadable, blank]

variable {record : α}

/-- What a torn write leaves adds its record or nothing. -/
theorem load_torn (lawful : format.Lawful kind) (own : kind record)
    (part : torn <+: format.line record ++ [10]) :
    load format torn = some [] ∨ load format torn = some [record] := by
  rcases List.prefix_concat_iff.mp part with whole | short
  · -- the line got through with its line feed
    have loaded := load_render lawful (by simpa using own : ∀ other ∈ [record], kind other)
    rw [render, List.flatMap_singleton] at loaded
    rw [whole]
    exact .inr loaded
  · have feed : 10 ∉ torn := fun member => lawful.feed own (short.subset member)
    rw [load, splitOn_of_notMem feed, parse]
    split
    · exact .inl rfl
    by_cases complete : torn = format.line record
    · rw [complete, lawful.read_line own]
      exact .inr rfl
    · rw [lawful.torn own short complete]
      exact .inl rfl

/-- A journal with a torn write at its end is loaded with all the lines before
it. -/
theorem load_render_torn (lawful : format.Lawful kind) (kinds : ∀ record ∈ records, kind record)
    (own : kind record) (part : torn <+: format.line record ++ [10]) :
    load format (render format records ++ torn) = some records ∨
      load format (render format records ++ torn) = some (records ++ [record]) := by
  rw [load_render_append lawful kinds]
  rcases load_torn lawful own part with nothing | added
  · simp [nothing]
  · simp [added]

end OmegaPlane.Journal
