import Blockwork.Number.Decimal
import Blockwork.Text.Blank

/-!
# Reading numerals

The texts that read as numbers, after blanks at the ends are dropped:

* decimal numerals, with an optional sign, an optional point and an optional exponent; there is a
  digit before or after the point;
* hexadecimal numerals `0x…p…`, where the binary exponent is mandatory;
* `inf` and `infinity` in any ASCII case, with an optional sign.

A single underscore may separate two digits, and the mark `0x` from the first digit. A numeral
gives the nearest number. One that is too large is no numeral; one that is too small is zero.
`nan` is no numeral.
-/

namespace Blockwork

namespace Numeral

/-- The value of a decimal digit. -/
def decimalDigit? (c : Char) : Option Nat :=
  if '0' ≤ c && c ≤ '9' then some (c.toNat - '0'.toNat) else none

/-- The value of a hexadecimal digit of either case. -/
def hexDigit? (c : Char) : Option Nat :=
  if '0' ≤ c && c ≤ '9' then some (c.toNat - '0'.toNat)
  else if 'a' ≤ c && c ≤ 'f' then some (c.toNat - 'a'.toNat + 10)
  else if 'A' ≤ c && c ≤ 'F' then some (c.toNat - 'A'.toNat + 10)
  else none

/-- Splits off the longest run of digits, as their values. -/
def takeDigits (digit? : Char → Option Nat) : List Char → List Nat × List Char
  | [] => ([], [])
  | c :: cs =>
    match digit? c with
    | some d =>
      let (ds, rest) := takeDigits digit? cs
      (d :: ds, rest)
    | none => ([], c :: cs)

/-- The natural number that digits write in a base. -/
def ofDigits (base : Nat) (ds : List Nat) : Nat := ds.foldl (fun n d => n * base + d) 0

/-- An optional sign: whether it is a minus, and the rest. -/
def takeSign : List Char → Bool × List Char
  | '+' :: cs => (false, cs)
  | '-' :: cs => (true, cs)
  | cs => (false, cs)

/-- A nonempty run of decimal digits with an optional sign, up to the end of the text. -/
def readExponent? (cs : List Char) : Option Int :=
  let (minus, cs) := takeSign cs
  match takeDigits decimalDigit? cs with
  | ([], _) => none
  | (ds, []) => some (if minus then -(ofDigits 10 ds : Int) else (ofDigits 10 ds : Int))
  | (_, _ :: _) => none

/-- Digits with an optional point: all digits, how many stand after the point, and the rest.
`none` when there is no digit. -/
def takeMantissa? (digit? : Char → Option Nat) (cs : List Char) :
    Option (List Nat × Nat × List Char) :=
  let (whole, rest) := takeDigits digit? cs
  let (after, rest) :=
    match rest with
    | '.' :: rest => takeDigits digit? rest
    | rest => ([], rest)
  if whole.isEmpty && after.isEmpty then none
  else some (whole ++ after, after.length, rest)

/-- Underscores stand only between digits. The flag says whether the character before may be
followed by an underscore. -/
def separatorsPlaced (digit? : Char → Option Nat) : (afterDigit : Bool) → List Char → Bool
  | _, [] => true
  | afterDigit, '_' :: cs =>
    afterDigit && (match cs with
      | c :: _ => (digit? c).isSome
      | [] => false) && separatorsPlaced digit? false cs
  | _, c :: cs => separatorsPlaced digit? (digit? c).isSome cs

/-- An unsigned decimal numeral: its coefficient and its power of ten. -/
def readDecimal? (cs : List Char) : Option (Nat × Int) := do
  guard (separatorsPlaced decimalDigit? false cs)
  let (ds, after, rest) ← takeMantissa? decimalDigit? (cs.filter (· != '_'))
  let exponent ← match rest with
    | [] => some 0
    | c :: rest => if c == 'e' || c == 'E' then readExponent? rest else none
  pure (ofDigits 10 ds, exponent - after)

/-- An unsigned hexadecimal numeral after its mark: its coefficient and its power of two. -/
def readHexadecimal? (cs : List Char) : Option (Nat × Int) := do
  guard (separatorsPlaced hexDigit? true cs)
  let (ds, after, rest) ← takeMantissa? hexDigit? (cs.filter (· != '_'))
  let exponent ← match rest with
    | [] => none
    | c :: rest => if c == 'p' || c == 'P' then readExponent? rest else none
  pure (ofDigits 16 ds, exponent - 4 * after)

/-- The word of the number nearest to `coefficient * 2 ^ exponent`. -/
def nearestBinaryWord (coefficient : Nat) (exponent : Int) : Option Nat :=
  if coefficient = 0 then some 0
  else
    let top : Int := (Nat.log2 coefficient : Int) + exponent
    if 1100 < top then none
    else if top < -1100 then some 0
    else if 0 ≤ exponent then Binary64.roundWord (coefficient * Nat.pow 2 exponent.toNat) 1
    else Binary64.roundWord coefficient (Nat.pow 2 (-exponent).toNat)

/-- A numeral without its sign: the word of its value. -/
def readUnsigned? (cs : List Char) : Option Nat :=
  let low := cs.map Char.toLower
  if low == "inf".toList || low == "infinity".toList then some (2047 * Nat.pow 2 52)
  else match cs with
    | '0' :: x :: rest =>
      if (x == 'x' || x == 'X') && !rest.isEmpty then
        readHexadecimal? rest |>.bind fun (c, e) => nearestBinaryWord c e
      else readDecimal? cs |>.bind fun (c, e) => Decimal.nearestWord c e
    | _ => readDecimal? cs |>.bind fun (c, e) => Decimal.nearestWord c e

/-- The number that a list of characters without outer blanks writes. -/
def readList? (cs : List Char) : Option Binary64 :=
  let (minus, rest) := takeSign cs
  (readUnsigned? rest).map (Binary64.ofWord minus)

end Numeral

/-- The number that a text writes. -/
def Binary64.read? (s : String) : Option Binary64 :=
  Numeral.readList? (Text.trimList s.toList)

end Blockwork
