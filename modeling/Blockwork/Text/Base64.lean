import Blockwork.Text.Utf8

/-!
# Base 64

Bytes written with sixty-four characters: four characters hold three bytes. The last group is
filled up with equals signs, and line ends between the characters are skipped.
-/

namespace Blockwork.Text

/-- The value of a character of base 64. -/
def sextet? (c : Char) : Option Nat :=
  if 'A' ≤ c && c ≤ 'Z' then some (c.toNat - 'A'.toNat)
  else if 'a' ≤ c && c ≤ 'z' then some (c.toNat - 'a'.toNat + 26)
  else if '0' ≤ c && c ≤ '9' then some (c.toNat - '0'.toNat + 52)
  else if c == '+' then some 62
  else if c == '/' then some 63
  else none

/-- The bytes of groups of four characters. -/
def sextetGroups? : List Char → Option Bytes
  | [] => some []
  | [a, b, '=', '='] => do
    let n := 64 * (← sextet? a) + (← sextet? b)
    return [(n / 16).toUInt8]
  | [a, b, c, '='] => do
    let n := 4096 * (← sextet? a) + 64 * (← sextet? b) + (← sextet? c)
    return [(n / 1024).toUInt8, (n / 4 % 256).toUInt8]
  | a :: b :: c :: d :: rest => do
    let n := 262144 * (← sextet? a) + 4096 * (← sextet? b) + 64 * (← sextet? c) + (← sextet? d)
    return (n / 65536).toUInt8 :: (n / 256 % 256).toUInt8 :: (n % 256).toUInt8 ::
      (← sextetGroups? rest)
  | _ => none

/-- The bytes that a text in base 64 writes. -/
def decodeBase64? (s : String) : Option Bytes :=
  sextetGroups? (s.toList.filter fun c => c != '\n' && c != '\r')

end Blockwork.Text
