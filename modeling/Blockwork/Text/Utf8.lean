/-!
# UTF-8

Texts as bytes. Only well-formed sequences decode: no surrogates, nothing beyond the last code
point, and no sequence longer than it has to be. `decode?` refuses the rest, `decodeLossy` puts a
replacement character for each byte that begins no well-formed sequence.
-/

namespace Blockwork.Text

/-- The bytes of a text. -/
abbrev Bytes := List UInt8

/-- The replacement character. -/
def replacement : Char := Char.ofNat 0xfffd

/-- A byte that continues a sequence. -/
def isContinuation (b : UInt8) : Bool := 0x80 ≤ b && b < 0xc0

/-- The low six bits of a continuation byte. -/
def payload (b : UInt8) : Nat := b.toNat % 64

/-- The character of a well-formed sequence at the beginning, and the number of its bytes. -/
def firstChar? : Bytes → Option (Char × Nat)
  | [] => none
  | a :: rest =>
    if a < 0x80 then some (Char.ofNat a.toNat, 1)
    else if 0xc2 ≤ a && a < 0xe0 then
      match rest with
      | b :: _ =>
        if isContinuation b then some (Char.ofNat ((a.toNat - 0xc0) * 64 + payload b), 2) else none
      | [] => none
    else if 0xe0 ≤ a && a < 0xf0 then
      match rest with
      | b :: c :: _ =>
        let n := (a.toNat - 0xe0) * 4096 + payload b * 64 + payload c
        -- neither longer than needed nor half of a surrogate pair
        if isContinuation b && isContinuation c && 0x800 ≤ n && !(0xd800 ≤ n && n < 0xe000) then
          some (Char.ofNat n, 3)
        else none
      | _ => none
    else if 0xf0 ≤ a && a < 0xf5 then
      match rest with
      | b :: c :: d :: _ =>
        let n := (a.toNat - 0xf0) * 262144 + payload b * 4096 + payload c * 64 + payload d
        if isContinuation b && isContinuation c && isContinuation d && 0x10000 ≤ n &&
            n < 0x110000 then
          some (Char.ofNat n, 4)
        else none
      | _ => none
    else none

/-- Decodes bytes of which the first `skip` belong to the character before; `bad` says what
becomes of a byte that begins no well-formed sequence. -/
def decodeFrom (bad : Option Char) : (skip : Nat) → Bytes → Option (List Char)
  | _, [] => some []
  | skip + 1, _ :: rest => decodeFrom bad skip rest
  | 0, a :: rest =>
    match firstChar? (a :: rest) with
    | some (c, size) => (decodeFrom bad (size - 1) rest).map (c :: ·)
    | none =>
      match bad with
      | some c => (decodeFrom bad 0 rest).map (c :: ·)
      | none => none

/-- The characters of well-formed bytes. -/
def decode? (bs : Bytes) : Option (List Char) := decodeFrom none 0 bs

/-- The characters of any bytes, with replacement characters for what is not well-formed. -/
def decodeLossy (bs : Bytes) : List Char := (decodeFrom (some replacement) 0 bs).getD []

/-- The bytes of a character. -/
def encodeChar (c : Char) : Bytes :=
  let n := c.toNat
  if n < 0x80 then [n.toUInt8]
  else if n < 0x800 then [(0xc0 + n / 64).toUInt8, (0x80 + n % 64).toUInt8]
  else if n < 0x10000 then
    [(0xe0 + n / 4096).toUInt8, (0x80 + n / 64 % 64).toUInt8, (0x80 + n % 64).toUInt8]
  else
    [(0xf0 + n / 262144).toUInt8, (0x80 + n / 4096 % 64).toUInt8, (0x80 + n / 64 % 64).toUInt8,
      (0x80 + n % 64).toUInt8]

/-- The bytes of a text. -/
def encode (s : String) : Bytes := s.toList.flatMap encodeChar

end Blockwork.Text
