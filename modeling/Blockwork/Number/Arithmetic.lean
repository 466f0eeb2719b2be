import Blockwork.Number.Binary64

/-!
# Arithmetic

The four operations and the elementary functions. Sums, products, quotients and roots are the
correctly rounded binary64 ones. The remainder is exact, computed on the integers that the
operands are multiples of. Logarithms to base ten and powers of ten are composed from the natural
ones in a fixed order, since the last bit depends on it.
-/

namespace Blockwork

namespace Binary64

/-- The number as a machine number. -/
def toFloat (x : Binary64) : Float := Float.ofBits x.bits

/-- A machine number as a number. -/
def ofFloat (x : Float) : Binary64 := ⟨x.toBits⟩

/-- Lifts a function of one machine number. -/
def lift₁ (f : Float → Float) (x : Binary64) : Binary64 := ofFloat (f x.toFloat)

/-- Lifts a function of two machine numbers. -/
def lift₂ (f : Float → Float → Float) (x y : Binary64) : Binary64 :=
  ofFloat (f x.toFloat y.toFloat)

/-- The correctly rounded sum. -/
def add : Binary64 → Binary64 → Binary64 := lift₂ (· + ·)

/-- The correctly rounded difference. -/
def sub : Binary64 → Binary64 → Binary64 := lift₂ (· - ·)

/-- The correctly rounded product. -/
def mul : Binary64 → Binary64 → Binary64 := lift₂ (· * ·)

/-- The correctly rounded quotient. -/
def div : Binary64 → Binary64 → Binary64 := lift₂ (· / ·)

/-- The remainder with the sign of the dividend; it is exact, so nothing is rounded. -/
def remainder (x y : Binary64) : Binary64 :=
  if x.isNaN || y.isNaN || x.isInfinite || y.magnitude == 0 then nan
  else if y.isInfinite then x
  else ofQuotient x.negative (x.magnitude % y.magnitude) unitsPerOne

/-- The remainder with the sign of the divisor. -/
def modulo (x y : Binary64) : Binary64 :=
  let r := remainder x y
  if !r.eq zero && (r.lt zero != y.lt zero) then r.add y else r

/-- The absolute value. -/
def abs (x : Binary64) : Binary64 := ofWord false (x.word % Nat.pow 2 63)

/-- The greatest whole number that is not above. -/
def floor : Binary64 → Binary64 := lift₁ Float.floor

/-- The least whole number that is not below. -/
def ceiling : Binary64 → Binary64 := lift₁ Float.ceil

/-- The correctly rounded square root. -/
def sqrt : Binary64 → Binary64 := lift₁ Float.sqrt

/-- The ratio of a circle's circumference to its diameter. -/
def pi : Float := Float.ofBits 0x400921fb54442d18

/-- A function of an angle, taken in degrees. -/
def ofDegrees (f : Float → Float) : Binary64 → Binary64 := lift₁ fun d => f (d * pi / 180)

/-- A function that gives an angle, returned in degrees. -/
def inDegrees (f : Float → Float) : Binary64 → Binary64 := lift₁ fun x => f x * 180 / pi

/-- The natural logarithm. -/
def ln : Binary64 → Binary64 := lift₁ Float.log

/-- The natural exponential. -/
def exp : Binary64 → Binary64 := lift₁ Float.exp

/-! ### Base two and base ten -/

/-- Splits a number into a significand of absolute value in `[1/2, 1)` and a power of two. Zero,
the infinities and not-a-number are returned with power zero. -/
def split (x : Binary64) : Binary64 × Int :=
  if !x.isFinite || x.magnitude == 0 then (x, 0)
  else
    let top := Nat.log2 x.magnitude
    (ofQuotient x.negative x.magnitude (Nat.pow 2 (top + 1)), (top : Int) + 1 - 1074)

/-- The number times a power of two, rounded once. -/
def scaleBy (x : Binary64) (power : Int) : Binary64 :=
  if !x.isFinite || x.magnitude == 0 then x
  else
    let top : Int := (Nat.log2 x.magnitude : Int) - 1074 + power
    if 1100 < top then infinity x.negative
    else if top < -1100 then ofWord x.negative 0
    else if 0 ≤ power then ofQuotient x.negative (x.magnitude * Nat.pow 2 power.toNat) unitsPerOne
    else ofQuotient x.negative x.magnitude (unitsPerOne * Nat.pow 2 (-power).toNat)

/-- The quotient of the natural logarithms of two and of ten. -/
def lnTwoOverLnTen : Float := Float.ofBits 0x3fd34413509f79ff

/-- The reciprocal of the natural logarithm of two. -/
def oneOverLnTwo : Float := Float.ofBits 0x3ff71547652b82fe

/-- One half. -/
def half : Binary64 := ofWord false (1022 * Nat.pow 2 52)

/-- The logarithm to base two; exact at powers of two. -/
def logTwo (x : Binary64) : Float :=
  let (fraction, power) := x.split
  if fraction = half then (ofInt (power - 1)).toFloat
  else Float.log fraction.toFloat * oneOverLnTwo + (ofInt power).toFloat

/-- The logarithm to base ten. -/
def logTen (x : Binary64) : Binary64 := ofFloat (x.logTwo * lnTwoOverLnTen)

/-- Squares and multiplies over the bits of `bits`: `acc * base ^ bits` for numbers that are given
as a significand and a power of two. Sixty-four rounds cover every exponent. -/
def powerLoop (acc : Float × Int) (base : Float × Int) (bits : Nat) : (rounds : Nat) → Float × Int
  | 0 => acc
  | rounds + 1 =>
    if bits = 0 then acc
    else if base.2 < -4096 || 4096 < base.2 then (acc.1, acc.2 + base.2)
    else
      let acc := if bits % 2 = 1 then (acc.1 * base.1, acc.2 + base.2) else acc
      let square := base.1 * base.1
      let base := if square < 0.5 then (square + square, base.2 * 2 - 1) else (square, base.2 * 2)
      powerLoop acc base (bits / 2) rounds

/-- Ten to a power. -/
def tenTo (y : Binary64) : Binary64 :=
  if y.isNaN then nan
  else if y.magnitude == 0 then one
  else if y.isInfinite then (if y.negative then zero else infinity false)
  else if y.abs = half then
    (if y.negative then one.div (sqrt (ofNat 10)) else sqrt (ofNat 10))
  else if y = one then ofNat 10
  else
    let whole := y.magnitude / unitsPerOne
    if Nat.pow 2 63 ≤ whole then (if y.negative then zero else infinity false)
    else
      let fraction := ofQuotient false (y.magnitude % unitsPerOne) unitsPerOne
      -- the fraction is brought between minus and plus one half
      let roundsUp := half.lt fraction
      let fraction := if roundsUp then fraction.sub one else fraction
      let whole := if roundsUp then whole + 1 else whole
      let start :=
        if fraction.eq zero then 1.0
        else Float.exp (fraction.toFloat * Float.log (ofNat 10).toFloat)
      let (ten, tenPower) := (ofNat 10).split
      let (a, power) := powerLoop (start, 0) (ten.toFloat, tenPower) whole 64
      if y.negative then (ofFloat (1.0 / a)).scaleBy (-power) else (ofFloat a).scaleBy power

end Binary64

end Blockwork
