import Blockwork.Number.Binary64
import Blockwork.Text.Utf8

/-!
# CBOR items

The data items of CBOR and their canonical bytes: lengths and integers in the fewest bytes, floats
in the narrowest of three widths that holds them exactly. The three widths are one format with
different parameters, so narrowing and widening are stated once.
-/

namespace Blockwork.Cbor

open Text (Bytes)

/-- A data item. -/
inductive Item where
  | unsigned (n : Nat)
  /-- The integer `-1 - n`. -/
  | negative (n : Nat)
  | bytes (b : Bytes)
  /-- A text by the bytes of its chunks; a text of known length has one chunk. -/
  | text (chunks : List Bytes)
  | array (items : List Item)
  /-- A map by its keys and values in turn. -/
  | map (entries : List Item)
  | tag (number : Nat) (content : Item)
  | simple (n : Nat)
  | float (x : Binary64)
deriving Inhabited

/-! ### Floats of three widths -/

/-- The parameters of a binary float format. -/
structure FloatFormat where
  /-- The number of fraction bits. -/
  fractionBits : Nat
  /-- The least positive number is `2 ^ -unitExponent`. -/
  unitExponent : Nat
  /-- The exponent field of the infinities. -/
  lastField : Nat

namespace FloatFormat

/-- Sixteen bits. -/
def half : FloatFormat := ⟨10, 24, 31⟩

/-- Thirty-two bits. -/
def single : FloatFormat := ⟨23, 149, 255⟩

/-- The place of the sign bit. -/
def signPlace (f : FloatFormat) : Nat := (f.lastField + 1) * Nat.pow 2 f.fractionBits

/-- The word without sign that holds the absolute value of a number exactly. -/
def narrow? (f : FloatFormat) (x : Binary64) : Option Nat :=
  if x.isInfinite then some (f.lastField * Nat.pow 2 f.fractionBits)
  else
    let unit := Nat.pow 2 (1074 - f.unitExponent)
    let q := x.magnitude / unit
    let places := Nat.log2 q - f.fractionBits
    let w := places * Nat.pow 2 f.fractionBits + q / Nat.pow 2 places
    if x.magnitude % unit = 0 ∧ q % Nat.pow 2 places = 0 ∧
        w < f.lastField * Nat.pow 2 f.fractionBits then
      some w
    else none

/-- The number that a word with its sign stands for. -/
def widen (f : FloatFormat) (word : Nat) : Binary64 :=
  let negative := f.signPlace ≤ word
  let w := word % f.signPlace
  let field := w / Nat.pow 2 f.fractionBits
  let fraction := w % Nat.pow 2 f.fractionBits
  if field = f.lastField then
    if fraction = 0 then .infinity negative else .nan
  else
    let significand := if field = 0 then fraction else Nat.pow 2 f.fractionBits + fraction
    .ofQuotient negative (significand * Nat.pow 2 (field - 1)) (Nat.pow 2 f.unitExponent)

end FloatFormat

/-! ### Canonical bytes -/

/-- The `size` low bytes of a number, the most significant first. -/
def bigEndian : (size : Nat) → (n : Nat) → Bytes
  | 0, _ => []
  | size + 1, n => bigEndian size (n / 256) ++ [(n % 256).toUInt8]

/-- The head of an item: its major type and an argument in the fewest bytes. -/
def head (major n : Nat) : Bytes :=
  let first := major * 32
  if n < 24 then [(first + n).toUInt8]
  else if n < 256 then (first + 24).toUInt8 :: bigEndian 1 n
  else if n < 65536 then (first + 25).toUInt8 :: bigEndian 2 n
  else if n < 4294967296 then (first + 26).toUInt8 :: bigEndian 4 n
  else (first + 27).toUInt8 :: bigEndian 8 n

/-- A float in the narrowest width that holds it; every not-a-number is the same one. -/
def encodeFloat (x : Binary64) : Bytes :=
  if x.isNaN then [0xf9, 0x7e, 0x00]
  else
    let sign (f : FloatFormat) : Nat := if x.negative then f.signPlace else 0
    match FloatFormat.half.narrow? x with
    | some w => 0xf9 :: bigEndian 2 (sign .half + w)
    | none =>
      match FloatFormat.single.narrow? x with
      | some w => 0xfa :: bigEndian 4 (sign .single + w)
      | none => 0xfb :: bigEndian 8 x.word

namespace Item

mutual

/-- The canonical bytes of an item. -/
def encode : Item → Bytes
  | .unsigned n => head 0 n
  | .negative n => head 1 n
  | .bytes b => head 2 b.length ++ b
  | .text chunks => head 3 chunks.flatten.length ++ chunks.flatten
  | .array items => head 4 items.length ++ encodeAll items
  | .map entries => head 5 (entries.length / 2) ++ encodeAll entries
  | .tag number content => head 6 number ++ encode content
  | .simple n => head 7 n
  | .float x => encodeFloat x

/-- The canonical bytes of several items. -/
def encodeAll : List Item → Bytes
  | [] => []
  | i :: is => encode i ++ encodeAll is

end

end Item

end Blockwork.Cbor
