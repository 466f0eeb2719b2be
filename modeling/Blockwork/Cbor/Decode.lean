import Blockwork.Cbor.Item

/-!
# Reading CBOR items

Any well-formed item is read, not only canonical ones: arguments of any width, strings in chunks,
arrays and maps of unknown length, tags. Arrays and maps nest at most thirty-two deep; a tag
directly inside a tag counts as a level too.
-/

namespace Blockwork.Cbor

open Text (Bytes)

/-- How deep arrays, maps and tags inside tags may nest. -/
def maxDepth : Nat := 32

/-- How many items an array and how many pairs a map may have. -/
def maxCount : Nat := 131072

/-- The number that bytes write, the most significant first. -/
def ofBigEndian (bs : Bytes) : Nat := bs.foldl (fun n b => n * 256 + b.toNat) 0

/-- The head of an item: major type, additional information and argument. The argument of an
unknown length is zero. -/
structure Head where
  major : Nat
  info : Nat
  argument : Nat

/-- An argument of `size` bytes. -/
def takeArgument? (major info size : Nat) (bs : Bytes) : Option (Head × Bytes) :=
  if bs.length < size then none
  else some (⟨major, info, ofBigEndian (bs.take size)⟩, bs.drop size)

/-- The byte that ends an item of unknown length. -/
def breakByte : UInt8 := 0xff

/-- Reads a head. -/
def takeHead? : Bytes → Option (Head × Bytes)
  | [] => none
  | b :: rest =>
    let major := b.toNat / 32
    let info := b.toNat % 32
    if info < 24 then some (⟨major, info, info⟩, rest)
    else if info = 24 then
      (takeArgument? major info 1 rest).filter fun (h, _) => !(major = 7 && h.argument < 32)
    else if info = 25 then takeArgument? major info 2 rest
    else if info = 26 then takeArgument? major info 4 rest
    else if info = 27 then takeArgument? major info 8 rest
    else if info = 31 && 2 ≤ major && major ≤ 5 then some (⟨major, info, 0⟩, rest)
    else none

/-- Reads a string of known length. -/
def takeString? (length : Nat) (bs : Bytes) : Option (Bytes × Bytes) :=
  if bs.length < length then none else some (bs.take length, bs.drop length)

/-- Reads the chunks of a string up to the break. -/
def takeChunks? (major : Nat) : (fuel : Nat) → Bytes → Option (List Bytes × Bytes)
  | 0, _ => none
  | fuel + 1, bs => do
    if bs.head? = some breakByte then return ([], bs.drop 1)
    let (h, rest) ← takeHead? bs
    guard (h.major = major ∧ h.info ≠ 31)
    let (chunk, rest) ← takeString? h.argument rest
    let (chunks, rest) ← takeChunks? major fuel rest
    return (chunk :: chunks, rest)

/-- A primitive item by its head. -/
def primitive (h : Head) : Item :=
  if h.info = 25 then .float (FloatFormat.half.widen h.argument)
  else if h.info = 26 then .float (FloatFormat.single.widen h.argument)
  else if h.info = 27 then .float ⟨h.argument.toUInt64⟩
  else .simple h.argument

mutual

/-- Reads an item at a depth; `inTag` says that it is the content of a tag. -/
def takeItem? : (fuel : Nat) → (depth : Nat) → (inTag : Bool) → Bytes → Option (Item × Bytes)
  | 0, _, _, _ => none
  | fuel + 1, depth, inTag, bs => do
    let (h, rest) ← takeHead? bs
    match h.major with
    | 0 => return (.unsigned h.argument, rest)
    | 1 => return (.negative h.argument, rest)
    | 2 | 3 =>
      let (chunks, rest) ←
        if h.info = 31 then takeChunks? h.major (rest.length + 1) rest
        else (takeString? h.argument rest).map fun (s, rest) => ([s], rest)
      return (if h.major = 2 then .bytes chunks.flatten else .text chunks, rest)
    | 4 | 5 =>
      guard (depth < maxDepth ∧ h.argument ≤ maxCount)
      let count := if h.major = 4 then h.argument else 2 * h.argument
      let (items, rest) ←
        if h.info = 31 then takeUntilBreak? fuel (depth + 1) rest
        else takeItems? fuel (depth + 1) count rest
      -- without a count in the head the limit is checked afterwards
      guard (items.length ≤ (if h.major = 4 then maxCount else 2 * maxCount))
      if h.major = 4 then return (.array items, rest)
      guard (items.length % 2 = 0)
      return (.map items, rest)
    | 6 =>
      -- only a tag within a tag counts as a level
      let depth := if inTag then depth + 1 else depth
      guard (depth ≤ maxDepth)
      let (content, rest) ← takeItem? fuel depth true rest
      return (.tag h.argument content, rest)
    | _ => return (primitive h, rest)
termination_by structural fuel => fuel

/-- Reads a number of items. -/
def takeItems? : (fuel : Nat) → (depth count : Nat) → Bytes → Option (List Item × Bytes)
  | 0, _, _, _ => none
  | _ + 1, _, 0, bs => some ([], bs)
  | fuel + 1, depth, count + 1, bs => do
    let (i, rest) ← takeItem? fuel depth false bs
    let (is, rest) ← takeItems? fuel depth count rest
    return (i :: is, rest)
termination_by structural fuel => fuel

/-- Reads items up to the break. -/
def takeUntilBreak? : (fuel : Nat) → (depth : Nat) → Bytes → Option (List Item × Bytes)
  | 0, _, _ => none
  | fuel + 1, depth, bs => do
    if bs.head? = some breakByte then return ([], bs.drop 1)
    let (i, rest) ← takeItem? fuel depth false bs
    let (is, rest) ← takeUntilBreak? fuel depth rest
    return (i :: is, rest)
termination_by structural fuel => fuel

end

/-- The item that bytes write, with nothing after it. -/
def Item.decode? (bs : Bytes) : Option Item :=
  match takeItem? (2 * bs.length + 2) 0 false bs with
  | some (i, []) => some i
  | _ => none

end Blockwork.Cbor
