import Mathlib.Data.List.Basic
import Mathlib.Data.List.Induction

/-!
# Backward-linked lists

Every entry of a list names the tag of the entry before it, the first one a
fixed start tag.  When tags of different entries differ and none is the start
tag, a linked list is determined by the tag of its last entry: following the
links back leaves no choice.
-/

namespace OmegaPlane.Chain

universe u v

variable {α : Type u} {β : Type v} (tag link : α → β)

/-- Each entry links to the tag before it, the first one to `start`. -/
def Linked (start : β) : List α → Prop
  | [] => True
  | entry :: rest => link entry = start ∧ Linked (tag entry) rest

/-- The tag the next entry has to link to. -/
def tip (start : β) (entries : List α) : β :=
  (entries.getLast?.map tag).getD start

variable {tag link}

@[simp]
theorem linked_nil (start : β) : Linked tag link start [] :=
  trivial

@[simp]
theorem linked_cons (start : β) (entry : α) (rest : List α) :
    Linked tag link start (entry :: rest) ↔ link entry = start ∧ Linked tag link (tag entry) rest :=
  Iff.rfl

@[simp]
theorem tip_nil (start : β) : tip tag start [] = start :=
  rfl

theorem tip_cons (start : β) (entry : α) (rest : List α) :
    tip tag start (entry :: rest) = tip tag (tag entry) rest := by
  cases rest with
  | nil => rfl
  | cons next rest =>
    have nonempty : next :: rest ≠ [] := by simp
    rw [tip, tip, List.getLast?_cons_cons, List.getLast?_eq_some_getLast nonempty]
    rfl

@[simp]
theorem tip_concat (start : β) (entries : List α) (entry : α) :
    tip tag start (entries ++ [entry]) = tag entry := by
  simp [tip]

theorem linked_append (start : β) (first second : List α) :
    Linked tag link start (first ++ second) ↔
      Linked tag link start first ∧ Linked tag link (tip tag start first) second := by
  induction first generalizing start with
  | nil => simp
  | cons entry rest ih => rw [List.cons_append, linked_cons, linked_cons, ih, tip_cons, and_assoc]

theorem linked_concat (start : β) (entries : List α) (entry : α) :
    Linked tag link start (entries ++ [entry]) ↔
      Linked tag link start entries ∧ link entry = tip tag start entries := by
  rw [linked_append]
  simp

variable {start : β}

variable {entries : List α} {entry : α}

/-- Every entry of a linked list links to the start or to the tag of another
entry. -/
theorem Linked.link_mem (linked : Linked tag link start entries) (member : entry ∈ entries) :
    link entry = start ∨ ∃ previous ∈ entries, link entry = tag previous := by
  induction entries generalizing start with
  | nil => simp at member
  | cons first rest ih =>
  rcases List.mem_cons.mp member with rfl | later
  · exact .inl linked.1
  · rcases ih linked.2 later with fromFirst | ⟨previous, previousMember, fromPrevious⟩
    · exact .inr ⟨first, by simp, fromFirst⟩
    · exact .inr ⟨previous, by simp [previousMember], fromPrevious⟩

/-- Two linked lists with the same tip are equal, provided equal tags mean
equal entries across the two and no entry carries the start tag. -/
theorem eq_of_tip_eq {first second : List α}
    (distinct : ∀ a ∈ first, ∀ b ∈ second, tag a = tag b → a = b)
    (firstFresh : ∀ a ∈ first, tag a ≠ start) (secondFresh : ∀ b ∈ second, tag b ≠ start)
    (firstLinked : Linked tag link start first) (secondLinked : Linked tag link start second)
    (tips : tip tag start first = tip tag start second) : first = second := by
  -- peel the last entries: they are equal, so their links and the shorter tips are
  induction first using List.reverseRecOn generalizing second with
  | nil =>
    rcases List.eq_nil_or_concat second with rfl | ⟨init, last, rfl⟩
    · rfl
    · rw [List.concat_eq_append, tip_concat, tip_nil] at tips
      exact absurd tips.symm (secondFresh last (by simp))
  | append_singleton init last ih =>
    rcases List.eq_nil_or_concat second with rfl | ⟨init', last', rfl⟩
    · rw [tip_concat, tip_nil] at tips
      exact absurd tips (firstFresh last (by simp))
    rw [List.concat_eq_append] at *
    rw [tip_concat, tip_concat] at tips
    have lastEq : last = last' :=
      distinct last (by simp) last' (by simp) tips
    subst last'
    obtain ⟨initLinked, lastLink⟩ := (linked_concat _ _ _).mp firstLinked
    obtain ⟨initLinked', lastLink'⟩ := (linked_concat _ _ _).mp secondLinked
    have initEq := ih
      (fun a aMember b bMember => distinct a (by simp [aMember]) b (by simp [bMember]))
      (fun a aMember => firstFresh a (by simp [aMember]))
      (fun b bMember => secondFresh b (by simp [bMember]))
      initLinked initLinked' (lastLink.symm.trans lastLink')
    rw [initEq]

/-- A linked list whose tip is the tag of an entry of another linked list is
the prefix of that list up to the entry. -/
theorem prefix_of_tip_mem {whole : List α}
    (distinct : ∀ a ∈ entries, ∀ b ∈ whole, tag a = tag b → a = b)
    (entriesFresh : ∀ a ∈ entries, tag a ≠ start) (wholeFresh : ∀ b ∈ whole, tag b ≠ start)
    (entriesLinked : Linked tag link start entries) (wholeLinked : Linked tag link start whole)
    (member : entry ∈ whole) (tipEq : tip tag start entries = tag entry) :
    entries <+: whole := by
  obtain ⟨before, after, split⟩ := List.append_of_mem member
  have splitConcat : whole = (before ++ [entry]) ++ after := by
    rw [split]
    simp
  rw [splitConcat] at wholeLinked
  have upToLinked := ((linked_append _ _ _).mp wholeLinked).1
  have upToMem : ∀ b ∈ before ++ [entry], b ∈ whole := by
    intro b bMember
    rw [splitConcat]
    exact List.mem_append_left _ bMember
  have equal : entries = before ++ [entry] :=
    eq_of_tip_eq (fun a aMember b bMember => distinct a aMember b (upToMem b bMember))
      entriesFresh (fun b bMember => wholeFresh b (upToMem b bMember))
      entriesLinked upToLinked (by rw [tipEq, tip_concat])
  rw [splitConcat, equal]
  exact List.prefix_append _ _

end OmegaPlane.Chain
