import Blockwork.Text.Quoted
import Blockwork.Text.Utf8

/-!
# Identifiers of runs

An identifier is made of sixteen random bytes. It is written in hexadecimal digits, in groups of
eight, four, four, four and twelve. The third group begins with the digit 4 and the fourth with one
from 8 to b.
-/

namespace Blockwork.Identifier

/-- The bytes with the two digits fixed that every identifier has in common. -/
def mark (bs : Text.Bytes) : Text.Bytes :=
  (bs.modify 6 fun b => 0x40 + b % 16).modify 8 fun b => 0x80 + b % 64

/-- Digits in groups of the given sizes. -/
def group : (sizes : List Nat) → List Char → List (List Char)
  | [], _ => []
  | size :: sizes, cs => cs.take size :: group sizes (cs.drop size)

/-- The identifier of some bytes. -/
def ofBytes (bs : Text.Bytes) : String :=
  let digits := (mark bs).flatMap fun b => Text.hexDigits 2 b.toNat
  "-".intercalate ((group [8, 4, 4, 4, 12] digits).map String.ofList)

end Blockwork.Identifier
