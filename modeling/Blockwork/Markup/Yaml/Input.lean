import Blockwork.Markup.Yaml.Fault
import Blockwork.Text.Utf8

/-!
# The characters of a YAML document

A document is UTF-8, or UTF-16 when it begins with the byte order mark of one of its two byte
orders; a byte order mark of UTF-8 is dropped. Bytes are decoded in chunks of 512, and a chunk is
used only as a whole: one that holds a wrong byte or a control character gives no characters at
all, only the problem, so that nothing before the trouble in the same chunk is looked at. Only a
character that is cut off by the end of the bytes spoils nothing before it.
-/

namespace Blockwork.Yaml

/-- Characters, and what stands in the way of reading on after them. -/
structure Input where
  chars : List Char
  problem : Option Problem

/-- A character that a document may hold as it is. -/
def isAllowed (n : Nat) : Bool :=
  n == 9 || n == 10 || n == 13 || (0x20 ≤ n && n ≤ 0x7e) || n == 0x85 ||
    (0xa0 ≤ n && n ≤ 0xd7ff) || (0xe000 ≤ n && n ≤ 0xfffd) || 0x10000 ≤ n

/-- The outcome of reading the character at the beginning of some bytes. -/
inductive Decoded where
  | char (n : Nat) (size : Nat)
  | bad (p : Problem)
  /-- The bytes end inside the character, which has `size` bytes. -/
  | cut (p : Problem) (size : Nat)

/-- The length that the first byte of a UTF-8 sequence announces. -/
def sequenceSize (b : UInt8) : Nat :=
  if b < 0x80 then 1
  else if b < 0xc0 then 0
  else if b < 0xe0 then 2
  else if b < 0xf0 then 3
  else if b < 0xf8 then 4
  else 0

/-- The UTF-8 sequence at the beginning. -/
def decodeUtf8 (a : UInt8) (rest : Text.Bytes) : Decoded :=
  let size := sequenceSize a
  let lead := if size = 1 then a.toNat else a.toNat % Nat.pow 2 (7 - size)
  let tail := rest.take (size - 1)
  if size = 0 then .bad .leadingByte
  else if tail.length < size - 1 then .cut .shortSequence size
  else if !tail.all Text.isContinuation then .bad .trailingByte
  else
    let n := tail.foldl (fun n b => n * 64 + Text.payload b) lead
    if (size = 2 ∧ n < 0x80) ∨ (size = 3 ∧ n < 0x800) ∨ (size = 4 ∧ n < 0x10000) then
      .bad .overlongSequence
    else if (0xd800 ≤ n ∧ n < 0xe000) ∨ 0x110000 ≤ n then .bad .noCharacter
    else .char n size

/-- The UTF-16 character at the beginning; `big` says that the high byte comes first. -/
def decodeUtf16 (big : Bool) (a : UInt8) (rest : Text.Bytes) : Decoded :=
  let unit (x y : UInt8) : Nat := if big then x.toNat * 256 + y.toNat else y.toNat * 256 + x.toNat
  match rest with
  | [] => .cut .shortUnit 2
  | b :: rest =>
    let n := unit a b
    if 0xdc00 ≤ n ∧ n < 0xe000 then .bad .lowSurrogate
    else if 0xd800 ≤ n ∧ n < 0xdc00 then
      match rest with
      | c :: d :: _ =>
        let m := unit c d
        if 0xdc00 ≤ m ∧ m < 0xe000 then
          .char (0x10000 + (n - 0xd800) * 0x400 + (m - 0xdc00)) 4
        else .bad .highSurrogate
      | _ => .cut .shortPair 4
    else .char n 2

namespace Input

/-- How many bytes are read at once. -/
def chunkSize : Nat := 512

/-- Reads bytes of which the first `skip` belong to the character before. `room` is what is left
of the chunk, `pending` its characters so far and `ready` those of the chunks before, both the last
first. -/
def readFrom (decode : UInt8 → Text.Bytes → Decoded) :
    (skip room : Nat) → (pending ready : List Char) → Text.Bytes → Input
  | _, _, pending, ready, [] => ⟨(pending ++ ready).reverse, none⟩
  | skip + 1, room, pending, ready, _ :: rest => readFrom decode skip room pending ready rest
  | 0, room, pending, ready, a :: rest =>
    match decode a rest with
    | .bad p => ⟨(if room = 0 then pending ++ ready else ready).reverse, some p⟩
    | .cut p _ => ⟨(pending ++ ready).reverse, some p⟩
    | .char n size =>
      if room < size then
        if isAllowed n then
          readFrom decode (size - 1) (chunkSize - size) [Char.ofNat n] (pending ++ ready) rest
        else ⟨(pending ++ ready).reverse, some .control⟩
      else if isAllowed n then
        readFrom decode (size - 1) (room - size) (Char.ofNat n :: pending) ready rest
      else ⟨ready.reverse, some .control⟩

/-- The characters of a document. -/
def ofBytes (bs : Text.Bytes) : Input :=
  match bs with
  | 0xff :: 0xfe :: rest => readFrom (decodeUtf16 false) 0 (chunkSize - 2) [] [] rest
  | 0xfe :: 0xff :: rest => readFrom (decodeUtf16 true) 0 (chunkSize - 2) [] [] rest
  | 0xef :: 0xbb :: 0xbf :: rest => readFrom decodeUtf8 0 (chunkSize - 3) [] [] rest
  | bs => readFrom decodeUtf8 0 chunkSize [] [] bs

end Input

end Blockwork.Yaml
