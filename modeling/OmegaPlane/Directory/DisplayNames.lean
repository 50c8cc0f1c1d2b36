import Mathlib.Data.List.Chain
import Mathlib.Data.List.DropRight
import OmegaPlane.Directory.Names

/-!
# Group names from display names

A provider names a group with any text.  The name of the group is made of the
lowercase letters and digits of that text, with one hyphen for every run of
other characters between them.
-/

namespace OmegaPlane.Directory

/-- Every run of other characters becomes one hyphen; whether a run has begun. -/
@[simp]
def replaceRuns : Bool → Bytes → Bytes
  | _, [] => []
  | inRun, byte :: rest =>
    if isLabelEnd byte then byte :: replaceRuns false rest
    else if inRun then replaceRuns true rest
    else 45 :: replaceRuns true rest

def isHyphen (byte : UInt8) : Bool :=
  byte = 45

def trimHyphens (text : Bytes) : Bytes :=
  (text.dropWhile isHyphen).rdropWhile isHyphen

inductive DisplayNameError where
  | unusable (display : Bytes)
  deriving DecidableEq

/-- The name a lowercase text gives, at most 63 bytes of it. -/
def slug (lower : Bytes) : Bytes :=
  let name := trimHyphens (replaceRuns false lower)
  if 63 < name.length then (name.take 63).rdropWhile isHyphen else name

def groupNameFromDisplay (toLower : Bytes → Bytes) (display : Bytes) :
    Except DisplayNameError Bytes :=
  if validateGroupName (slug (toLower display)) then .ok (slug (toLower display))
  else .error (.unusable display)

/-- Letters, digits and hyphens, no two hyphens in a row. -/
structure Spaced (text : Bytes) : Prop where
  bytes : ∀ byte ∈ text, isLabelEnd byte ∨ byte = 45
  apart : text.IsChain fun left right => isLabelEnd left ∨ isLabelEnd right

variable {text name lower : Bytes} {inRun : Bool} {byte first : UInt8}

theorem Spaced.part (spaced : Spaced text) (inside : name <:+: text) : Spaced name where
  bytes byte member := spaced.bytes byte (inside.subset member)
  apart := List.IsChain.infix spaced.apart inside

theorem Spaced.rdropWhile (spaced : Spaced text) : Spaced (text.rdropWhile isHyphen) := by
  have front := List.rdropWhile_prefix isHyphen text
  exact spaced.part front.isInfix

theorem Spaced.isLabelEnd_of_not_hyphen (spaced : Spaced text) (member : byte ∈ text)
    (other : ¬ isHyphen byte) : isLabelEnd byte :=
  (spaced.bytes byte member).resolve_right (by simpa [isHyphen] using other)

/-- What is left of a run begins after it. -/
theorem head_replaceRuns (text : Bytes) :
    ∀ byte ∈ (replaceRuns true text).head?, isLabelEnd byte := by
  induction text with
  | nil => simp
  | cons byte rest ih =>
    by_cases plain : isLabelEnd byte
    · simp [plain]
    · simpa [plain] using ih

theorem spaced_replaceRuns (inRun : Bool) (text : Bytes) : Spaced (replaceRuns inRun text) := by
  induction text generalizing inRun with
  | nil => exact ⟨by simp, by simp⟩
  | cons byte rest ih =>
  by_cases plain : isLabelEnd byte
  · rw [replaceRuns, if_pos plain]
    exact ⟨List.forall_mem_cons.mpr ⟨.inl plain, (ih false).bytes⟩,
      List.isChain_cons.mpr ⟨fun _ _ => .inl plain, (ih false).apart⟩⟩
  · rw [replaceRuns, if_neg plain]
    split
    · exact ih true
    have apart (other : UInt8) (head : other ∈ (replaceRuns true rest).head?) :=
      head_replaceRuns rest other head
    exact ⟨List.forall_mem_cons.mpr ⟨.inr rfl, (ih true).bytes⟩,
      List.isChain_cons.mpr ⟨fun other head => .inr (apart other head), (ih true).apart⟩⟩

/-- Nothing is replaced where the hyphens are apart already. -/
theorem replaceRuns_of_spaced (spaced : Spaced text)
    (begins : inRun → ∀ byte ∈ text.head?, isLabelEnd byte) : replaceRuns inRun text = text := by
  induction text generalizing inRun with
  | nil => rfl
  | cons byte rest ih =>
  have later := spaced.part (List.suffix_cons byte rest).isInfix
  by_cases plain : isLabelEnd byte
  · rw [replaceRuns, if_pos plain, ih later (by simp)]
  have fresh : ¬ inRun := fun running => plain (begins running byte rfl)
  have next := (List.isChain_cons.mp spaced.apart).1
  rw [replaceRuns, if_neg plain, if_neg fresh,
    ih later fun _ other head => (next other head).resolve_left plain,
    (spaced.bytes byte List.mem_cons_self).resolve_left plain]

theorem mem_replaceRuns (plain : isLabelEnd byte) :
    byte ∈ replaceRuns inRun text ↔ byte ∈ text := by
  have other : byte ≠ 45 := by
    rintro rfl
    exact absurd plain (by decide)
  induction text generalizing inRun with
  | nil => simp
  | cons first rest ih =>
  rw [replaceRuns]
  split
  · simp [ih]
  have differs : byte ≠ first := by
    rintro rfl
    contradiction
  split <;> simp [ih, differs, other]

theorem not_isHyphen (plain : isLabelEnd byte) : ¬ isHyphen byte := by
  intro hyphen
  rw [of_decide_eq_true hyphen] at plain
  exact absurd plain (by decide)

theorem head?_rdropWhile (isFirst : text.head? = some first) (plain : isLabelEnd first) :
    (text.rdropWhile isHyphen).head? = some first := by
  have kept : text.rdropWhile isHyphen ≠ [] := fun nothing => not_isHyphen plain
    (List.rdropWhile_eq_nil_iff.mp nothing first (List.mem_of_head? isFirst))
  obtain ⟨rest, whole⟩ := List.rdropWhile_prefix isHyphen text
  rw [← List.head?_append_of_ne_nil _ kept, whole, isFirst]

/-- Without its last hyphens the text is a label. -/
theorem Spaced.matchesLabel_rdropWhile (spaced : Spaced text) (isFirst : text.head? = some first)
    (plain : isLabelEnd first) :
    matchesLabel (text.rdropWhile isHyphen) := by
  have begins := head?_rdropWhile isFirst plain
  have kept : text.rdropWhile isHyphen ≠ [] := by
    intro nothing
    simp [nothing] at begins
  have inside := spaced.rdropWhile
  have ends := inside.isLabelEnd_of_not_hyphen (List.getLast_mem kept)
    (List.rdropWhile_last_not isHyphen text kept)
  have bytes : ∀ byte ∈ text.rdropWhile isHyphen, isLabelByte byte := by
    intro byte member
    rcases inside.bytes byte member with plain | rfl
    · simp [isLabelByte, plain]
    · decide
  simpa [matchesLabel, List.getLast?_eq_some_getLast kept, begins, plain, ends] using bytes

/-- A text with a letter or digit gives a name. -/
theorem slug_spec (member : byte ∈ lower) (plain : isLabelEnd byte) :
    Spaced (slug lower) ∧ validateGroupName (slug lower) := by
  rw [slug, trimHyphens]
  have kept : (replaceRuns false lower).dropWhile isHyphen ≠ [] := fun nothing =>
    not_isHyphen plain
      (List.dropWhile_eq_nil_iff.mp nothing byte ((mem_replaceRuns plain).mpr member))
  have isFirst := List.head?_eq_some_head kept
  have spaced := (spaced_replaceRuns false lower).part (List.dropWhile_suffix isHyphen).isInfix
  have begins := spaced.isLabelEnd_of_not_hyphen (List.head_mem kept)
    (Bool.not_eq_true _ ▸ List.head_dropWhile_not isHyphen kept)
  generalize (replaceRuns false lower).dropWhile isHyphen = text at *
  split
  · -- what is left of the first 63 bytes
    have front := List.take_prefix 63 (text.rdropWhile isHyphen)
    have cut := spaced.rdropWhile.part front.isInfix
    have first : ((text.rdropWhile isHyphen).take 63).head? = some (text.head kept) := by
      rw [List.head?_take, if_neg (by decide), head?_rdropWhile isFirst begins]
    have short := List.rdropWhile_prefix isHyphen ((text.rdropWhile isHyphen).take 63)
    refine ⟨cut.rdropWhile, ?_⟩
    rw [validateGroupName, cut.matchesLabel_rdropWhile first begins, Bool.and_true,
      decide_eq_true_eq]
    exact short.length_le.trans (List.length_take_le 63 _)
  · rename_i short
    refine ⟨spaced.rdropWhile, ?_⟩
    rw [validateGroupName, spaced.matchesLabel_rdropWhile isFirst begins]
    simpa using short

theorem slug_of_none (none : ∀ byte ∈ lower, ¬ isLabelEnd byte) :
    slug lower = [] := by
  have hyphens : ∀ byte ∈ replaceRuns false lower, isHyphen byte := by
    intro byte member
    by_contra other
    have plain := (spaced_replaceRuns false lower).isLabelEnd_of_not_hyphen member other
    exact none byte ((mem_replaceRuns plain).mp member) plain
  simp [slug, trimHyphens, List.dropWhile_eq_nil_iff.mpr hyphens]

theorem slug_of_label (spaced : Spaced name) (valid : validateGroupName name) :
    slug name = name := by
  simp only [validateGroupName, matchesLabel, Bool.and_eq_true, decide_eq_true_eq] at valid
  obtain ⟨short, ⟨-, begins⟩, ends⟩ := valid
  have replaced : replaceRuns false name = name := replaceRuns_of_spaced spaced (by simp)
  have front : name.dropWhile isHyphen = name := by
    cases name with
    | nil => rfl
    | cons => exact List.dropWhile_cons_of_neg (not_isHyphen (by simpa using begins))
  have back : name.rdropWhile isHyphen = name := by
    refine List.rdropWhile_eq_self_iff.mpr fun kept => not_isHyphen ?_
    simpa [List.getLast?_eq_some_getLast kept] using ends
  rw [slug, trimHyphens, replaced, front, back, if_neg (by omega)]

/-- A display name gives a group name exactly when a letter or digit is left of
it, and the name gives itself. -/
theorem groupNameFromDisplay_spec (toLower : Bytes → Bytes)
    (fixed : ∀ text, (∀ byte ∈ text, isLabelEnd byte ∨ byte = 45) → toLower text = text)
    (display : Bytes) :
    ((groupNameFromDisplay toLower display).isOk ↔ ∃ byte ∈ toLower display, isLabelEnd byte) ∧
      ∀ name, groupNameFromDisplay toLower display = .ok name →
        validateGroupName name ∧ groupNameFromDisplay toLower name = .ok name := by
  by_cases usable : ∃ byte ∈ toLower display, isLabelEnd byte
  · obtain ⟨byte, member, plain⟩ := id usable
    obtain ⟨spaced, valid⟩ := slug_spec member plain
    simp only [groupNameFromDisplay, valid, if_true]
    refine ⟨iff_of_true rfl usable, ?_⟩
    rintro name ⟨⟩
    rw [fixed _ spaced.bytes, slug_of_label spaced valid, if_pos valid]
    exact ⟨valid, rfl⟩
  · have nothing := slug_of_none fun byte member plain => usable ⟨byte, member, plain⟩
    have refused : groupNameFromDisplay toLower display = .error (.unusable display) := by
      rw [groupNameFromDisplay, nothing]
      rfl
    rw [refused]
    exact ⟨iff_of_false (by simp [Except.isOk, Except.toBool]) usable, by simp⟩

/-- Lowercase ASCII letters for uppercase ones. -/
def asciiLower (text : Bytes) : Bytes :=
  text.map fun byte => if 65 ≤ byte ∧ byte ≤ 90 then byte + 32 else byte

theorem groupNameFromDisplay_spec_team :
    groupNameFromDisplay asciiLower (ascii "Team  A & B!") = .ok (ascii "team-a-b") ∧
      validateGroupName (ascii "team-a-b") ∧
      groupNameFromDisplay asciiLower (ascii "team-a-b") = .ok (ascii "team-a-b") := by
  have made : groupNameFromDisplay asciiLower (ascii "Team  A & B!") = .ok (ascii "team-a-b") := by
    decide
  refine ⟨made, (groupNameFromDisplay_spec asciiLower (fun text plain => ?_) _).2 _ made⟩
  have same : ∀ byte ∈ text, ¬ (65 ≤ byte ∧ byte ≤ 90) := by
    intro byte member
    have bounds := plain byte member
    simp only [isLabelEnd, Bool.or_eq_true, Bool.and_eq_true, decide_eq_true_eq] at bounds
    simp only [UInt8.le_iff_toNat_le]
    rcases bounds with bounds | rfl
    · have : (90 : UInt8).toNat = 90 := rfl
      have : (65 : UInt8).toNat = 65 := rfl
      omega
    · decide
  rw [asciiLower, List.map_congr_left fun byte member => if_neg (same byte member), List.map_id']

end OmegaPlane.Directory
