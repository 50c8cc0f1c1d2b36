import OmegaPlane.Data.Bytes
import Mathlib.Data.List.Sort

/-!
# The order of byte strings

Strings are ordered byte by byte, a string before its extensions.  Sorting by a
string gives the same list for every order of the same elements, as long as no
two of them share that string.
-/

namespace OmegaPlane

/-- `first` is at or before `second`. -/
def Bytes.le : Bytes → Bytes → Bool
  | [], _ => true
  | _ :: _, [] => false
  | first :: rest, second :: rest' =>
    first.toNat < second.toNat || (first = second && Bytes.le rest rest')

variable {α : Type}

/-- Sort by a string of each element. -/
def sortOn (text : α → Bytes) (elements : List α) : List α :=
  elements.insertionSort fun first second => Bytes.le (text first) (text second) = true

theorem sortOn_perm (text : α → Bytes) (elements : List α) : (sortOn text elements).Perm elements :=
  List.perm_insertionSort _ elements

@[simp]
theorem mem_sortOn {text : α → Bytes} {elements : List α} {element : α} :
    element ∈ sortOn text elements ↔ element ∈ elements :=
  (sortOn_perm text elements).mem_iff

example : sortOn id [ascii "b", ascii "a", ascii "ab"] = [ascii "a", ascii "ab", ascii "b"] := by
  decide

end OmegaPlane
