import Mathlib.Data.List.Basic

/-!
# `StartKernel.Abs.BoolArray`: arrays of booleans

What a bitmap is for: an array of booleans of a fixed length. An assignment gives one value to a
range of elements, as far as the array goes.

* `fill_map_range`: an assignment to an array that is given element by element.
-/

set_option autoImplicit false

namespace BoolArray

variable {n index count : Nat} {f : Nat → Bool} {b : Bool}

/-- The elements of a range get the value `b`. -/
def fill (l : List Bool) (index count : Nat) (b : Bool) : List Bool :=
  l.mapIdx fun j x => if index ≤ j ∧ j < index + count then b else x

/-- An assignment: where it begins, how many elements it has, and their value. -/
structure Assign where
  index : Nat
  count : Nat
  value : Bool

/-- The array after an assignment. -/
def assign (l : List Bool) (c : Assign) : List Bool := fill l c.index c.count c.value

/-- An assignment to an array that is given element by element. -/
theorem fill_map_range : fill ((List.range n).map f) index count b
    = (List.range n).map fun j => if index ≤ j ∧ j < index + count then b else f j := by
  apply List.ext_getElem
  · rw [fill, List.length_mapIdx, List.length_map, List.length_map]
  · intro j hj hj'
    rw [List.getElem_map, List.getElem_range]
    simp only [fill, List.getElem_mapIdx, List.getElem_map, List.getElem_range]

end BoolArray
