import Blockwork.Number.Numeral

/-!
# Reading integers

An integer has an optional sign and digits. A zero in front makes it octal; `0x`, `0o` and `0b`, in
either case, give the base sixteen, eight and two. Single underscores may stand between digits, and
between the mark of the base and the first digit. The value has to fit 64 bits.
-/

namespace Blockwork.Numeral

/-- The base that the beginning of an unsigned integer gives, and the digits after its mark. -/
def splitBase (cs : List Char) : Nat × List Char :=
  match cs with
  | '0' :: x :: d :: rest =>
    let mark := x.toLower
    if mark == 'x' then (16, d :: rest)
    else if mark == 'o' then (8, d :: rest)
    else if mark == 'b' then (2, d :: rest)
    else (8, x :: d :: rest)
  | '0' :: rest => (8, rest)
  | _ => (10, cs)

/-- The underscores of an unsigned integer stand only where they may. -/
def underscoresPlaced (cs : List Char) : Bool :=
  match cs with
  | '0' :: x :: rest =>
    let mark := x.toLower
    if mark == 'x' then separatorsPlaced hexDigit? true rest
    else if mark == 'o' || mark == 'b' then separatorsPlaced decimalDigit? true rest
    else separatorsPlaced decimalDigit? false cs
  | _ => separatorsPlaced decimalDigit? false cs

/-- The integer of 64 bits that a text writes. -/
def readInteger? (s : String) : Option Int := do
  let (minus, cs) := takeSign s.toList
  guard (!cs.isEmpty && underscoresPlaced cs)
  let (base, digits) := splitBase cs
  let ds ← (digits.filter (· != '_')).mapM hexDigit?
  guard (ds.all (· < base))
  let n := ofDigits base ds
  guard (if minus then n ≤ Nat.pow 2 63 else n < Nat.pow 2 63)
  return if minus then -(n : Int) else n

end Blockwork.Numeral
