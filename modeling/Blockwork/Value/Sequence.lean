import Blockwork.Value.Compare

/-!
# Operations on the items of a list

Positions are integers and count from zero. A position outside the list reads as undefined, and a
change at such a position does nothing, which the result `none` reports.
-/

namespace Blockwork

namespace Sequence

/-- The items from the first to the last. -/
abbrev Items := Array Value

/-- The item at a position, undefined outside the list. -/
def itemAt (xs : Items) (i : Int) : Value :=
  if 0 ≤ i then xs.getD i.toNat .undefined else .undefined

/-- Puts an item before position `i`; the position after the last item appends. -/
def insertAt? (xs : Items) (i : Int) (v : Value) : Option Items :=
  if 0 ≤ i ∧ i ≤ xs.size then some (xs.insertIdxIfInBounds i.toNat v) else none

/-- Removes the item at position `i`. -/
def deleteAt? (xs : Items) (i : Int) : Option Items :=
  if 0 ≤ i ∧ i < xs.size then some (xs.eraseIdxIfInBounds i.toNat) else none

/-- Replaces the item at position `i`. -/
def replaceAt? (xs : Items) (i : Int) (v : Value) : Option Items :=
  if 0 ≤ i ∧ i < xs.size then some (xs.setIfInBounds i.toNat v) else none

/-- The position of the first item equal to `v`. -/
def indexOf? (xs : Items) (v : Value) : Option Nat := xs.findIdx? (·.equal v)

/-- The position of the first item equal to `v`, minus one when there is none. -/
def indexOf (xs : Items) (v : Value) : Int :=
  match indexOf? xs v with
  | some i => i
  | none => -1

end Sequence

end Blockwork
