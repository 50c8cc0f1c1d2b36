import OmegaPlane.Data.Bytes

/-!
# Regular expressions

A backtracking matcher of byte strings.  The ways in which an expression matches from a
position are listed in the order of preference: the first way from the leftmost position
that has one is the match that is found.
-/

namespace OmegaPlane

/-- Expressions without repetition other than a fixed number of times, with one group. -/
inductive Regexp where
  | empty
  | oneOf (accepts : UInt8 → Bool)
  | start
  | finish
  | seq (first second : Regexp)
  | alt (first second : Regexp)
  | group (inner : Regexp)

namespace Regexp

def optional (r : Regexp) : Regexp :=
  .alt r .empty

def concat (parts : List Regexp) : Regexp :=
  parts.foldr .seq .empty

def times (count : Nat) (accepts : UInt8 → Bool) : Regexp :=
  concat (List.replicate count (.oneOf accepts))

def literal (text : Bytes) : Regexp :=
  concat (text.map fun byte => .oneOf (· == byte))

/-- Where a match stands: at the start of the text or not, what is left of the text, and
what the group captured. -/
structure Cursor where
  fresh : Bool
  rest : Bytes
  captured : Option Bytes

@[simp]
def ways : Regexp → Cursor → List Cursor
  | .empty, here => [here]
  | .oneOf accepts, here =>
    match here.rest with
    | [] => []
    | byte :: rest => if accepts byte then [{ here with fresh := false, rest }] else []
  | .start, here => if here.fresh then [here] else []
  | .finish, here => if here.rest = [] then [here] else []
  | .seq first second, here => (first.ways here).flatMap second.ways
  | .alt first second, here => first.ways here ++ second.ways here
  | .group inner, here =>
    (inner.ways here).map fun there =>
      { there with captured := some (here.rest.take (here.rest.length - there.rest.length)) }

/-- The preferred way from the leftmost position. -/
def findFrom (r : Regexp) (fresh : Bool) (text : Bytes) : Option Cursor :=
  match r.ways ⟨fresh, text, none⟩ with
  | way :: _ => some way
  | [] =>
    match text with
    | [] => none
    | _ :: rest => r.findFrom false rest

/-- What the group captures in the match that is found. -/
def submatch (r : Regexp) (text : Bytes) : Option Bytes :=
  (r.findFrom true text).map fun way => way.captured.getD []

/-! ## What is found -/

/-- Some way from some position captures a text. -/
def Finds (r : Regexp) (fresh : Bool) (text captured : Bytes) : Prop :=
  ∃ skipped rest, text = skipped ++ rest ∧
    ∃ way ∈ r.ways ⟨fresh && skipped.isEmpty, rest, none⟩, way.captured.getD [] = captured

variable {r : Regexp} {text : Bytes} {way : Cursor}

variable {fresh : Bool} {captured : Bytes}

theorem finds_of_findFrom (found : r.findFrom fresh text = some way) :
    r.Finds fresh text (way.captured.getD []) := by
  fun_induction findFrom r fresh text with
  | case1 text fresh first others isWays =>
    obtain rfl := Option.some.inj found
    exact ⟨[], text, rfl, first, by simp [isWays], rfl⟩
  | case2 fresh isWays => cases found
  | case3 fresh byte rest isWays ih =>
    obtain ⟨skipped, left, rfl, captures⟩ := ih found
    exact ⟨byte :: skipped, left, rfl, by simpa using captures⟩

theorem not_finds_of_findFrom (missing : r.findFrom fresh text = none) :
    ¬ r.Finds fresh text captured := by
  rintro ⟨skipped, left, rfl, way, member, -⟩
  induction skipped generalizing fresh with
  | nil =>
    rw [findFrom.eq_def] at missing
    cases isWays : r.ways ⟨fresh, left, none⟩ with
    | nil => simp [isWays] at member
    | cons => simp [isWays] at missing
  | cons byte skipped ih =>
    rw [findFrom.eq_def] at missing
    cases isWays : r.ways ⟨fresh, byte :: (skipped ++ left), none⟩ with
    | nil =>
      simp only [List.cons_append, isWays] at missing
      exact ih missing (by simpa using member)
    | cons => simp [isWays] at missing

theorem submatch_eq_none_iff :
    r.submatch text = none ↔ ∀ captured, ¬ r.Finds true text captured := by
  constructor
  · intro missing captured
    exact not_finds_of_findFrom (Option.map_eq_none_iff.mp missing)
  · intro nothing
    refine Option.map_eq_none_iff.mpr (Option.eq_none_iff_forall_ne_some.mpr ?_)
    intro way found
    exact nothing _ (finds_of_findFrom found)

/-- A text that every way captures is what is found. -/
theorem submatch_eq_some (finds : r.Finds true text captured)
    (unique : ∀ other, r.Finds true text other → other = captured) :
    r.submatch text = some captured := by
  cases found : r.findFrom true text with
  | none => exact absurd finds (not_finds_of_findFrom found)
  | some => rw [submatch, found, Option.map_some, unique _ (finds_of_findFrom found)]

/-! ## What is read -/

/-- An expression without anchors and groups reads certain words. -/
def Reads (r : Regexp) (words : Bytes → Prop) : Prop :=
  ∀ here there, there ∈ r.ways here ↔ ∃ word, words word ∧ here.rest = word ++ there.rest ∧
    there.fresh = (here.fresh && word.isEmpty) ∧ there.captured = here.captured

variable {words words' : Bytes → Prop} {first : Regexp}

theorem Reads.of_iff (reads : Reads r words) (same : ∀ word, words word ↔ words' word) :
    Reads r words' := by
  rwa [show words' = words from funext fun word => propext (same word).symm]

theorem Reads.empty : Reads .empty (· = []) := by
  rintro ⟨fresh, rest, captured⟩ ⟨fresh', rest', captured'⟩
  simp only [ways, List.mem_singleton, Cursor.mk.injEq, exists_eq_left, List.nil_append,
    List.isEmpty_nil, Bool.and_true]
  grind

theorem Reads.oneOf (accepts : UInt8 → Bool) :
    Reads (.oneOf accepts) fun word => ∃ byte, accepts byte ∧ word = [byte] := by
  rintro ⟨fresh, rest, captured⟩ ⟨fresh', rest', captured'⟩
  cases rest with
  | nil =>
    simp only [ways, List.not_mem_nil, false_iff]
    rintro ⟨_, ⟨byte, -, rfl⟩, isRest, -⟩
    cases isRest
  | cons first rest =>
    simp only [ways]
    constructor
    · intro member
      split at member
      · rename_i accepted
        obtain ⟨rfl, rfl, rfl⟩ := Cursor.mk.inj (List.mem_singleton.mp member)
        exact ⟨[first], ⟨first, accepted, rfl⟩, rfl, by simp, rfl⟩
      · cases member
    · rintro ⟨_, ⟨byte, accepted, rfl⟩, isRest, isFresh, isCaptured⟩
      obtain ⟨rfl, rfl⟩ := List.cons.inj isRest
      simp_all

private theorem isEmpty_append (word word' : Bytes) :
    (word ++ word').isEmpty = (word.isEmpty && word'.isEmpty) := by
  cases word <;> rfl

variable {second inner : Regexp} {here : Cursor}

theorem Reads.seq (head : Reads first words) (tail : Reads second words') :
    Reads (.seq first second) fun all => ∃ word word', words word ∧ words' word' ∧
      all = word ++ word' := by
  intro here there
  simp only [ways, List.mem_flatMap]
  constructor
  · rintro ⟨mid, fromHere, toThere⟩
    obtain ⟨word, member, isRest, isFresh, isCaptured⟩ := (head here mid).mp fromHere
    obtain ⟨word', member', isRest', isFresh', isCaptured'⟩ := (tail mid there).mp toThere
    refine ⟨word ++ word', ⟨word, word', member, member', rfl⟩, ?_, ?_, ?_⟩
    · rw [isRest, isRest', List.append_assoc]
    · rw [isFresh', isFresh, Bool.and_assoc, isEmpty_append]
    · rw [isCaptured', isCaptured]
  · rintro ⟨_, ⟨word, word', member, member', rfl⟩, isRest, isFresh, isCaptured⟩
    refine ⟨⟨here.fresh && word.isEmpty, word' ++ there.rest, here.captured⟩, ?_, ?_⟩
    · exact (head _ _).mpr ⟨word, member, by rw [isRest, List.append_assoc], rfl, rfl⟩
    · refine (tail _ _).mpr ⟨word', member', rfl, ?_, isCaptured⟩
      rw [isFresh, Bool.and_assoc, isEmpty_append]

theorem Reads.alt (left : Reads first words) (right : Reads second words') :
    Reads (.alt first second) fun word => words word ∨ words' word := by
  intro here there
  rw [ways, List.mem_append, left here there, right here there]
  simp only [or_and_right, exists_or]

theorem Reads.literal (text : Bytes) : Reads (literal text) (· = text) := by
  induction text with
  | nil => exact Reads.empty
  | cons byte text ih =>
  refine ((Reads.oneOf (· == byte)).seq ih).of_iff fun word => ?_
  constructor
  · rintro ⟨_, _, ⟨first, same, rfl⟩, rfl, rfl⟩
    rw [eq_of_beq same]
    rfl
  · rintro rfl
    exact ⟨[byte], text, ⟨byte, beq_self_eq_true byte, rfl⟩, rfl, rfl⟩

theorem Reads.times (count : Nat) (accepts : UInt8 → Bool) :
    Reads (times count accepts) fun word => word.length = count ∧ ∀ byte ∈ word, accepts byte := by
  induction count with
  | zero =>
    refine Reads.empty.of_iff fun word => ⟨?_, fun isEmpty => List.length_eq_zero_iff.mp isEmpty.1⟩
    rintro rfl
    exact ⟨rfl, by simp⟩
  | succ count ih =>
    refine ((Reads.oneOf accepts).seq ih).of_iff fun word => ?_
    constructor
    · rintro ⟨_, rest, ⟨first, accepted, rfl⟩, ⟨rfl, others⟩, rfl⟩
      exact ⟨rfl, List.forall_mem_cons.mpr ⟨accepted, others⟩⟩
    · rintro ⟨isLength, all⟩
      obtain ⟨first, rest, rfl⟩ := List.exists_cons_of_length_eq_add_one isLength
      obtain ⟨accepted, others⟩ := List.forall_mem_cons.mp all
      exact ⟨[first], rest, ⟨first, accepted, rfl⟩, ⟨Nat.succ.inj isLength, others⟩, rfl⟩

/-- A group captures the word it reads. -/
theorem mem_ways_group (reads : Reads inner words) {there : Cursor} :
    there ∈ (group inner).ways here ↔ ∃ word, words word ∧ here.rest = word ++ there.rest ∧
      there.fresh = (here.fresh && word.isEmpty) ∧ there.captured = some word := by
  simp only [ways, List.mem_map]
  constructor
  · rintro ⟨way, member, rfl⟩
    obtain ⟨word, isWord, isRest, isFresh, -⟩ := (reads here way).mp member
    exact ⟨word, isWord, isRest, isFresh, by simp [isRest]⟩
  · rintro ⟨word, isWord, isRest, isFresh, isCaptured⟩
    refine ⟨{ there with captured := here.captured }, ?_, ?_⟩
    · exact (reads here _).mpr ⟨word, isWord, isRest, isFresh, rfl⟩
    · cases there
      simp_all

theorem mem_ways_concat {others : List Regexp} :
    way ∈ (concat (first :: others)).ways here ↔
      ∃ mid ∈ first.ways here, way ∈ (concat others).ways mid := by
  simp only [concat, List.foldr_cons, ways, List.mem_flatMap]

/-- A group before an optional text at the end. -/
theorem captures_at_end (reads : Reads inner words) (tail : Bytes) (here : Cursor)
    (captured : Bytes) :
    (∃ way ∈ (concat [group inner, optional (literal tail), finish]).ways here,
        way.captured.getD [] = captured) ↔
      words captured ∧ (here.rest = captured ++ tail ∨ here.rest = captured) := by
  have ending := (Reads.literal tail).alt .empty
  constructor
  · rintro ⟨way, member, rfl⟩
    obtain ⟨first, grouped, member⟩ := mem_ways_concat.mp member
    obtain ⟨second, ended, member⟩ := mem_ways_concat.mp member
    obtain ⟨third, finished, member⟩ := mem_ways_concat.mp member
    obtain rfl := List.mem_singleton.mp member
    obtain ⟨word, isWord, isRest, -, isCaptured⟩ := (mem_ways_group reads).mp grouped
    obtain ⟨last, isLast, isRest', -, isCaptured'⟩ := (ending _ _).mp ended
    simp only [ways] at finished
    split at finished
    · rename_i isEnd
      obtain rfl := List.mem_singleton.mp finished
      rw [isCaptured', isCaptured, isRest, isRest', isEnd, List.append_nil]
      refine ⟨isWord, isLast.imp (fun same => by rw [same]; rfl) fun same => ?_⟩
      rw [same, List.append_nil]
      rfl
    · cases finished
  · rintro ⟨isWord, isRest⟩
    obtain ⟨last, isLast, isRest⟩ : ∃ last, (last = tail ∨ last = []) ∧
        here.rest = captured ++ last := by
      rcases isRest with isRest | isRest
      · exact ⟨tail, .inl rfl, isRest⟩
      · exact ⟨[], .inr rfl, by rw [isRest, List.append_nil]⟩
    let way : Cursor := ⟨here.fresh && captured.isEmpty && last.isEmpty, [], some captured⟩
    refine ⟨way, ?_, rfl⟩
    refine mem_ways_concat.mpr ⟨⟨here.fresh && captured.isEmpty, last, some captured⟩, ?_, ?_⟩
    · exact (mem_ways_group reads).mpr ⟨captured, isWord, isRest, rfl, rfl⟩
    · refine mem_ways_concat.mpr ⟨way, (ending _ _).mpr ⟨last, isLast, ?_, rfl, rfl⟩, ?_⟩
      · exact (List.append_nil last).symm
      · exact mem_ways_concat.mpr ⟨way, by simp [way], List.mem_singleton_self _⟩

end Regexp

end OmegaPlane
