import Blockwork.Number.Shortest

/-!
# How numbers are shown

Whole numbers up to `2 ^ 53` in absolute value are shown as integers, both zeros as `0`. Any other
finite number is shown by its shortest digits: positionally when the first digit has a power of
ten from `-4` to `5`, otherwise with an exponent of a sign and at least two digits.
-/

namespace Blockwork

namespace Display

/-- The powers of ten of the first digit that are written positionally. -/
def positional (order : Int) : Bool := decide (-4 ≤ order) && decide (order < 6)

/-- The exponent: a mark, a sign and at least two digits. -/
def exponentPart (order : Int) : List Char :=
  let ds := Decimal.digits order.natAbs
  'e' :: (if order < 0 then '-' else '+') :: (if ds.length < 2 then '0' :: ds else ds)

/-- Digits with a point after the first `whole` of them; no point when nothing follows. -/
def withPoint (whole : Nat) (ds : List Char) : List Char :=
  if ds.length ≤ whole then ds else ds.take whole ++ '.' :: ds.drop whole

/-- The text of `coefficient * 10 ^ exponent`, `coefficient` without trailing zeros. -/
def layout (coefficient : Nat) (exponent : Int) : List Char :=
  let ds := Decimal.digits coefficient
  let order := (ds.length : Int) - 1 + exponent
  if positional order then
    if order < 0 then '0' :: '.' :: (List.replicate (-order - 1).toNat '0' ++ ds)
    else withPoint (order + 1).toNat (ds ++ List.replicate exponent.toNat '0')
  else withPoint 1 ds ++ exponentPart order

/-- The greatest absolute value up to which every whole number is shown as an integer. -/
def integerLimit : Nat := Nat.pow 2 53

/-- The sign in front of a text. -/
def signed (negative : Bool) (cs : List Char) : List Char := if negative then '-' :: cs else cs

end Display

/-- The text that shows a number. -/
def Binary64.display (x : Binary64) : String :=
  if x.isNaN then "NaN"
  else if x.isInfinite then (if x.negative then "-Inf" else "+Inf")
  else if x.isIntegral && decide (x.magnitude ≤ Display.integerLimit * unitsPerOne) then
    let n := x.magnitude / unitsPerOne
    String.ofList (Display.signed (x.negative && n != 0) (Decimal.digits n))
  else
    let d := Shortest.decimal (x.word % Nat.pow 2 63) x.magnitude
    String.ofList (Display.signed x.negative (Display.layout d.1 d.2))

end Blockwork
