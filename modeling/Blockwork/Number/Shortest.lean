import Blockwork.Number.Decimal

/-!
# Shortest digits

The fewest decimal digits that read back as a given number. For each number of digits in turn the
two decimals on that grid around the value are tried, and the first grid with one that reads back
wins; of two that do, the nearer, and the one with an even last digit if both are equally near.
Seventeen digits always suffice, so that the exact expansion behind them is never needed.
-/

namespace Blockwork

namespace Shortest

/-- The power of ten of the first significant digit of `magnitude` units of `2 ^ -1074`. -/
def order (magnitude : Nat) : Int :=
  (Decimal.width (magnitude * Nat.pow 10 400 / Binary64.unitsPerOne) : Int) - 401

/-- The two decimals around the value on the grid of `10 ^ grid`, the preferred one first. -/
def neighbours (magnitude : Nat) (grid : Int) : Nat × Nat :=
  let num := if grid < 0 then magnitude * Nat.pow 10 (-grid).toNat else magnitude
  let den := if grid < 0 then Binary64.unitsPerOne else Binary64.unitsPerOne * Nat.pow 10 grid.toNat
  let q := num / den
  let r := num % den
  if 2 * r < den || (2 * r == den && q % 2 == 0) then (q, q + 1) else (q + 1, q)

/-- A decimal on the grid that reads back as the word. -/
def onGrid? (word magnitude : Nat) (grid : Int) : Option (Nat × Int) :=
  let (near, far) := neighbours magnitude grid
  if Decimal.nearestWord near grid == some word then some (near, grid)
  else if Decimal.nearestWord far grid == some word then some (far, grid)
  else none

/-- Tries grids from the coarsest on, `tries` of them. -/
def search? (word magnitude : Nat) (grid : Int) : (tries : Nat) → Option (Nat × Int)
  | 0 => none
  | tries + 1 =>
    match onGrid? word magnitude grid with
    | some found => some found
    | none => search? word magnitude (grid - 1) tries

/-- Drops trailing zeros of a coefficient, at most `tries` of them. -/
def dropZeros (coefficient : Nat) (exponent : Int) : (tries : Nat) → Nat × Int
  | 0 => (coefficient, exponent)
  | tries + 1 =>
    if coefficient % 10 = 0 then dropZeros (coefficient / 10) (exponent + 1) tries
    else (coefficient, exponent)

/-- A decimal without trailing zeros in its coefficient. -/
def withoutZeros (d : Nat × Int) : Nat × Int := dropZeros d.1 d.2 (Decimal.width d.1)

/-- The decimal that a number of units of `2 ^ -1074` is. -/
def expansion (magnitude : Nat) : Nat × Int := (magnitude * Nat.pow 5 1074, -1074)

/-- The shortest decimal that reads back as a positive finite word, as a coefficient without
trailing zeros and a power of ten. -/
def decimal (word magnitude : Nat) : Nat × Int :=
  ((search? word magnitude (order magnitude) 17).map withoutZeros).getD (expansion magnitude)

end Shortest

end Blockwork
