/-!
# Binary64 numbers

A number is a 64-bit word: a sign bit, an eleven-bit exponent field and a fifty-two-bit fraction.
Everything that later chapters reason about is read off the word in exact integer arithmetic. The
unit is `2 ^ -1074`, the least positive number: a finite number is an integral multiple of it, its
`scaled` value, and the infinities take the value that the next power of two would have, which
keeps them beyond every finite number. Comparison, truncation and rounding are then statements
about integers.

Rounding goes the other way: `roundWord` sends a quotient of natural numbers to the word of the
nearest number, a tie to the even one, and refuses what is too large.
-/

namespace Blockwork

/-- A number, given by its binary64 word. -/
structure Binary64 where
  bits : UInt64
deriving DecidableEq, Inhabited

namespace Binary64

/-! ### Reading the word -/

/-- The word as a natural number. -/
def word (x : Binary64) : Nat := x.bits.toNat

/-- The sign bit. -/
def negative (x : Binary64) : Bool := decide (Nat.pow 2 63 ≤ x.word)

/-- The exponent field. -/
def field (x : Binary64) : Nat := x.word / Nat.pow 2 52 % Nat.pow 2 11

/-- The fraction. -/
def fraction (x : Binary64) : Nat := x.word % Nat.pow 2 52

/-- Not a number: the last exponent field with a fraction. -/
def isNaN (x : Binary64) : Bool := x.field == 2047 && x.fraction != 0

/-- One of the two infinities: the last exponent field without a fraction. -/
def isInfinite (x : Binary64) : Bool := x.field == 2047 && x.fraction == 0

/-- Neither infinite nor not a number. -/
def isFinite (x : Binary64) : Bool := x.field != 2047

/-- The integral significand; normal numbers have a hidden leading bit. -/
def significand (x : Binary64) : Nat :=
  if x.field = 0 then x.fraction else Nat.pow 2 52 + x.fraction

/-- How many places the significand is shifted: `|x|` is `significand * 2 ^ shift` units. -/
def shift (x : Binary64) : Nat := x.field - 1

/-- The absolute value in units of `2 ^ -1074`. -/
def magnitude (x : Binary64) : Nat := x.significand * Nat.pow 2 x.shift

/-- One in units of `2 ^ -1074`. -/
def unitsPerOne : Nat := Nat.pow 2 1074

/-- The value in units of `2 ^ -1074`. -/
def scaled (x : Binary64) : Int :=
  if x.negative then -(x.magnitude : Int) else (x.magnitude : Int)

/-! ### Comparison -/

/-- Numeric equality: both zeros are one number, and not-a-number equals nothing. -/
def eq (x y : Binary64) : Bool := !x.isNaN && !y.isNaN && x.scaled == y.scaled

/-- Numeric order; nothing is below or above not-a-number. -/
def lt (x y : Binary64) : Bool := !x.isNaN && !y.isNaN && decide (x.scaled < y.scaled)

/-- Numeric order or equality; nothing is below, above or equal to not-a-number. -/
def le (x y : Binary64) : Bool := !x.isNaN && !y.isNaN && decide (x.scaled ≤ y.scaled)

/-! ### Writing a word -/

/-- The number with this sign and this word below the sign bit. -/
def ofWord (negative : Bool) (w : Nat) : Binary64 :=
  ⟨((if negative then Nat.pow 2 63 else 0) + w).toUInt64⟩

/-- Positive zero. -/
def zero : Binary64 := ofWord false 0

/-- One. -/
def one : Binary64 := ofWord false (1023 * Nat.pow 2 52)

/-- The quiet not-a-number. -/
def nan : Binary64 := ofWord false (2047 * Nat.pow 2 52 + Nat.pow 2 51)

/-- The infinity of a sign. -/
def infinity (negative : Bool) : Binary64 := ofWord negative (2047 * Nat.pow 2 52)

/-- The quotient rounded to the nearest integer, a tie to the even one. -/
def roundHalfEven (num den : Nat) : Nat :=
  let q := num / den
  let r := num % den
  if 2 * r < den then q else if den < 2 * r then q + 1 else q + q % 2

/-- The word of the number nearest to `num / den`, `none` when that is beyond the finite
numbers. The significand and the exponent field are added, so that a significand that rounds up
to the next power of two carries into the exponent by itself. -/
def roundWord (num den : Nat) : Option Nat :=
  let scaledNum := num * unitsPerOne
  let places := Nat.log2 (scaledNum / den) - 52
  let w := places * Nat.pow 2 52 + roundHalfEven scaledNum (den * Nat.pow 2 places)
  if w < 2047 * Nat.pow 2 52 then some w else none

/-- The number nearest to `± num / den`; what is too large becomes infinite. -/
def ofQuotient (negative : Bool) (num den : Nat) : Binary64 :=
  ((roundWord num den).map (ofWord negative)).getD (infinity negative)

/-- The number nearest to an integer. -/
def ofInt (n : Int) : Binary64 := ofQuotient (decide (n < 0)) n.natAbs 1

/-- The number nearest to a natural number. -/
def ofNat (n : Nat) : Binary64 := ofQuotient false n 1

/-! ### Whole numbers -/

/-- The value has no fractional part. Infinities pass; `isFinite` is a separate question. -/
def isIntegral (x : Binary64) : Bool := !x.isNaN && x.magnitude % unitsPerOne == 0

/-- The value cut toward zero. -/
def truncate (x : Binary64) : Int := x.scaled.tdiv unitsPerOne

/-- The least 64-bit integer. -/
def leastIndex : Int := -(Nat.pow 2 63)

/-- The greatest 64-bit integer. -/
def greatestIndex : Int := Nat.pow 2 63 - 1

/-- The value as a 64-bit integer: cut toward zero, or the limit that it reaches or passes, and zero
for not-a-number. The limits are compared as numbers. The greatest 64-bit integer is between two
numbers, and the one nearest to it is one more. -/
def toIndex (x : Binary64) : Int :=
  if x.isNaN then 0
  else if (ofInt greatestIndex).le x then greatestIndex
  else if x.le (ofInt leastIndex) then leastIndex
  else x.truncate

/-- The nearest whole number, a half going away from zero. The sign of a zero stays. -/
def round (x : Binary64) : Binary64 :=
  if x.isFinite then
    ofQuotient x.negative ((2 * x.magnitude + unitsPerOne) / (2 * unitsPerOne)) 1
  else x

end Binary64

end Blockwork
