import OmegaPlane.Data.Bytes

/-!
# Names of domains and groups

A domain name is a sequence of labels separated by dots; the parent of a domain
is its name without the last label.  The chain of a domain is the domain and
everything above it, which is where a grant may stand that covers it.
-/

namespace OmegaPlane.Directory

def isLabelEnd (byte : UInt8) : Bool :=
  (97 ≤ byte.toNat && byte.toNat ≤ 122) || (48 ≤ byte.toNat && byte.toNat ≤ 57)

def isLabelByte (byte : UInt8) : Bool :=
  isLabelEnd byte || byte = 95 || byte = 45

/-- The pattern of a label: lowercase letters, digits, `_` and `-`, with a letter
or a digit at both ends. -/
def matchesLabel (label : Bytes) : Bool :=
  label.all isLabelByte && label.head?.any isLabelEnd && label.getLast?.any isLabelEnd

def validateDomainName (name : Bytes) : Bool :=
  name ≠ [] && name.length ≤ 253 && (name.splitOn 46).all matchesLabel

def validateGroupName (name : Bytes) : Bool :=
  name.length ≤ 63 && matchesLabel name

/-- The name up to its last dot, empty when there is none. -/
def parentOf (name : Bytes) : Bytes :=
  ((name.reverse.dropWhile fun byte => byte ≠ 46).drop 1).reverse

variable {name : Bytes}

theorem length_parentOf_lt (nonempty : name ≠ []) : (parentOf name).length < name.length := by
  have shorter : (name.reverse.dropWhile fun byte => byte ≠ 46).length ≤ name.length := by
    have := (List.dropWhile_sublist (l := name.reverse) fun byte : UInt8 => decide (byte ≠ 46)).length_le
    simpa using this
  have positive := List.length_pos_iff.mpr nonempty
  simp only [parentOf, List.length_reverse, List.length_drop]
  omega

/-- The names above a domain, itself first, as far as `fuel` goes. -/
def chainFrom : Nat → Bytes → List Bytes
  | 0, _ => []
  | fuel + 1, name => if name = [] then [] else name :: chainFrom fuel (parentOf name)

/-- A domain and everything above it. -/
def chain (name : Bytes) : List Bytes :=
  chainFrom name.length name

theorem chainFrom_eq_chain {fuel : Nat} (enough : name.length ≤ fuel) :
    chainFrom fuel name = chain name := by
  induction fuel using Nat.strong_induction_on generalizing name with
  | _ fuel ih =>
    unfold chain
    cases fuel with
    | zero => rw [Nat.le_zero.mp enough]
    | succ fuel =>
    by_cases empty : name = []
    · subst empty
      rfl
    · obtain ⟨length, lengthEq⟩ : ∃ length, name.length = length + 1 :=
        Nat.exists_eq_add_one.mpr (List.length_pos_iff.mpr empty)
      have shorter := length_parentOf_lt empty
      rw [lengthEq, chainFrom, chainFrom, if_neg empty, if_neg empty]
      rw [ih fuel (by omega) (by omega), ih length (by omega) (by omega)]

@[simp]
theorem chain_nil : chain [] = [] :=
  rfl

theorem chain_of_ne_nil (nonempty : name ≠ []) : chain name = name :: chain (parentOf name) := by
  obtain ⟨length, lengthEq⟩ : ∃ length, name.length = length + 1 :=
    Nat.exists_eq_add_one.mpr (List.length_pos_iff.mpr nonempty)
  have shorter := length_parentOf_lt nonempty
  conv_lhs => rw [chain, lengthEq, chainFrom, if_neg nonempty]
  rw [chainFrom_eq_chain (by omega)]

theorem nil_notMem_chain (name : Bytes) : [] ∉ chain name := by
  induction length : name.length using Nat.strong_induction_on generalizing name with
  | _ length ih =>
    by_cases empty : name = []
    · simp [empty]
    · rw [chain_of_ne_nil empty, List.mem_cons, not_or]
      exact ⟨Ne.symm empty, ih _ (length ▸ length_parentOf_lt empty) _ rfl⟩

/-- What is above something above a domain is above the domain. -/
theorem mem_chain_trans {first second third : Bytes} (below : second ∈ chain first)
    (above : third ∈ chain second) : third ∈ chain first := by
  induction length : first.length using Nat.strong_induction_on generalizing first with
  | _ length ih =>
    by_cases empty : first = []
    · simp [empty] at below
    rw [chain_of_ne_nil empty] at below ⊢
    rcases List.mem_cons.mp below with rfl | deeper
    · rwa [chain_of_ne_nil empty] at above
    · exact List.mem_cons_of_mem _
        (ih _ (length ▸ length_parentOf_lt empty) deeper rfl)

theorem ne_nil_of_validateDomainName (valid : validateDomainName name = true) : name ≠ [] := by
  rintro rfl
  simp [validateDomainName] at valid

example : chain (ascii "a.b.c") = [ascii "a.b.c", ascii "a.b", ascii "a"] := by
  decide

end OmegaPlane.Directory
