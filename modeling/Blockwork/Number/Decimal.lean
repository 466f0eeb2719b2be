import Blockwork.Number.Binary64

/-!
# Decimal numerals as numbers

A decimal is a coefficient and a power of ten. `nearestWord` is the one place where decimals
become binary: it rounds `coefficient * 10 ^ exponent` to the nearest number. Decimals far outside
the range are settled by their order of magnitude alone, so that an exponent of any size costs
nothing.
-/

namespace Blockwork

namespace Decimal

/-- The decimal digits of a natural number, the most significant first; zero has one digit. -/
def digits (n : Nat) : List Char := Nat.toDigits 10 n

/-- The number of decimal digits. -/
def width (n : Nat) : Nat := (digits n).length

/-- A bound on orders of magnitude: beyond it on either side no decimal has a finite nonzero
nearest number. -/
def horizon : Int := 400

/-- The word of the number nearest to `coefficient * 10 ^ exponent`, `none` when it is beyond the
finite numbers. -/
def nearestWord (coefficient : Nat) (exponent : Int) : Option Nat :=
  if coefficient = 0 then some 0
  else if horizon < (width coefficient : Int) + exponent then none
  else if (width coefficient : Int) + exponent < -horizon then some 0
  else if 0 ≤ exponent then Binary64.roundWord (coefficient * Nat.pow 10 exponent.toNat) 1
  else Binary64.roundWord coefficient (Nat.pow 10 (-exponent).toNat)

end Decimal

end Blockwork
