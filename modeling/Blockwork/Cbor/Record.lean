import Blockwork.Cbor.Decode
import Blockwork.Value.Basic

/-!
# Values and heaps as CBOR

A value is a map with the key `t` for its kind and one more key for its content: `n` for a number,
`s` for a text, `b` for a truth value and `i` for the items of a list. Content that is zero, empty
or false is left out. A heap is a map from names to values, shorter names first and names of one
length in the order of their bytes.

Reading is more liberal than writing: keys may come in any order and in upper case, the first of
equal keys counts and unknown keys are ignored, null leaves a field as it is, and tags are looked
through.
-/

namespace Blockwork

open Cbor (Item)
open Text (Bytes)

/-! ### Writing -/

namespace Datum

/-- The number of a kind in records. -/
def kindNumber : Datum → Nat
  | undefined => 0
  | number _ => 1
  | text _ => 2
  | truth _ => 3
  | list _ => 4
  | noList => 4

/-- A text as an item. -/
def textItem (s : String) : Item := .text [Text.encode s]

/-- The record of a value with some content in front of its kind. -/
def record (content : List Item) (kind : Nat) : Item :=
  .map (content ++ [textItem "t", .unsigned kind])

mutual

/-- The record of a value. -/
def toItem : Datum → Item
  | .undefined => record [] 0
  | .number n => record (if n.magnitude = 0 then [] else [textItem "n", .float n]) 1
  | .text s => record (if s = "" then [] else [textItem "s", textItem s]) 2
  | .truth b => record (if b then [textItem "b", .simple 21] else []) 3
  | .list ds =>
    record (if ds.isEmpty then [] else [textItem "i", .array (toItems ds)]) 4
  | .noList => record [] 4

/-- The records of several values. -/
def toItems : List Datum → List Item
  | [] => []
  | d :: ds => d.toItem :: toItems ds

end

/-- The bytes of a value. -/
def encode (d : Datum) : Bytes := d.toItem.encode

end Datum

namespace Bindings

/-- The order of names in a record: by length in bytes, then by bytes. -/
def precedes (a b : String × Datum) : Bool :=
  if a.1.utf8ByteSize = b.1.utf8ByteSize then !decide (b.1 < a.1)
  else decide (a.1.utf8ByteSize < b.1.utf8ByteSize)

/-- The record of some bindings. -/
def toItem (bindings : List (String × Datum)) : Item :=
  .map ((bindings.mergeSort precedes).flatMap fun (name, d) => [Datum.textItem name, d.toItem])

/-- The bytes of some bindings. -/
def encode (bindings : List (String × Datum)) : Bytes := (toItem bindings).encode

end Bindings

/-! ### Reading -/

namespace Cbor

/-- Whether the content of a tag is of the type that the tag's number asks for. -/
def tagAllows (number : Nat) (content : Item) : Bool :=
  match number, content with
  | 0, .text _ => true
  | 0, _ => false
  | 1, .unsigned _ => true
  | 1, .negative _ => true
  | 1, .float _ => true
  | 1, _ => false
  | 2, .bytes _ => true
  | 2, _ => false
  | 3, .bytes _ => true
  | 3, _ => false
  | _, _ => true

/-- Null and undefined leave a field as it is. -/
def isNull (n : Nat) : Bool := n == 22 || n == 23

/-- An integer of at most 64 bits, `none` for anything else. The outer option is the success, the
inner one is empty for null. -/
def toInteger? : Item → Option (Option Int)
  | .unsigned n => some (some n)
  | .negative n => if n < Nat.pow 2 63 then some (some (-1 - n)) else none
  | .simple n => if isNull n then some none else if n = 20 ∨ n = 21 then none else some (some n)
  | .tag 2 (.bytes b) =>
    if ofBigEndian b < Nat.pow 2 64 then some (some (ofBigEndian b)) else none
  | .tag 3 (.bytes b) =>
    if ofBigEndian b < Nat.pow 2 63 then some (some (-1 - (ofBigEndian b : Int))) else none
  | .tag number content => if tagAllows number content then toInteger? content else none
  | _ => none

/-- A kind number: an integer of 64 bits with a sign. -/
def toKindNumber? (i : Item) : Option Int :=
  match toInteger? i with
  | some (some n) => if n < Nat.pow 2 63 then some n else none
  | some none => some 0
  | none => none

/-- A number: a float or an integer. -/
def toNumber? : Item → Option Binary64
  | .float x => some x
  | .tag 2 content => (toInteger? (.tag 2 content)).map fun n => .ofInt (n.getD 0)
  | .tag 3 content => (toInteger? (.tag 3 content)).map fun n => .ofInt (n.getD 0)
  | .tag number content => if tagAllows number content then toNumber? content else none
  | i => (toInteger? i).map fun n => .ofInt (n.getD 0)

/-- A text whose chunks are all well-formed; empty inside for null. -/
def toText? : Item → Option (Option String)
  | .text chunks => do
    let parts ← chunks.mapM Text.decode?
    return some (String.ofList parts.flatten)
  | .simple n => if isNull n then some none else none
  | .tag number content =>
    if tagAllows number content && number != 2 && number != 3 then toText? content else none
  | _ => none

/-- A truth value. -/
def toTruth? : Item → Option Bool
  | .simple n => if isNull n then some false else if n = 20 then some false
      else if n = 21 then some true else none
  | .tag number content =>
    if tagAllows number content && number != 2 && number != 3 then toTruth? content else none
  | _ => none

/-- The fields of a record that were met so far. -/
structure Fields where
  kind : Option Int := none
  number : Option Binary64 := none
  text : Option String := none
  truth : Option Bool := none
  items : Option (List Datum) := none

namespace Fields

/-- The value that the fields describe; a kind of no number known is undefined. -/
def toDatum (f : Fields) : Datum :=
  match f.kind.getD 0 with
  | 1 => .number (f.number.getD .zero)
  | 2 => .text (f.text.getD "")
  | 3 => .truth (f.truth.getD false)
  | 4 => .list (f.items.getD [])
  | _ => .undefined

end Fields

/-- The keys of a record. -/
inductive Key where
  | kind
  | number
  | text
  | truth
  | items
  | unknown
deriving DecidableEq

/-- The key that an item writes: a letter in either case. A key of another type than text or
integer is an error. -/
def Key.ofItem? : Item → Option Key
  | .text chunks => do
    let parts ← chunks.mapM Text.decode?
    match (String.ofList parts.flatten).map Char.toLower with
    | "t" => return .kind
    | "n" => return .number
    | "s" => return .text
    | "b" => return .truth
    | "i" => return .items
    | _ => return .unknown
  | .unsigned _ => some .unknown
  | .negative n => if n < Nat.pow 2 63 then some .unknown else none
  | _ => none

mutual

/-- The fields of a record. -/
def toFields? : Item → Option Fields
  | .map entries => takeFields? {} entries
  | .simple n => if isNull n then some {} else none
  | .tag number content =>
    if tagAllows number content && number != 2 && number != 3 then toFields? content else none
  | _ => none

/-- Reads keys and values in turn. -/
def takeFields? (f : Fields) : List Item → Option Fields
  | [] => some f
  | key :: rest =>
    match rest with
    | [] => some f
    | value :: rest => do
      let f ← match ← Key.ofItem? key with
        -- of a field that comes twice the first one counts, and the other is not even read
        | .kind =>
          if f.kind.isSome then pure f
          else (toKindNumber? value).map fun n => { f with kind := some n }
        | .number =>
          if f.number.isSome then pure f
          else (toNumber? value).map fun n => { f with number := some n }
        | .text =>
          if f.text.isSome then pure f
          else (toText? value).map fun s => { f with text := some (s.getD "") }
        | .truth =>
          if f.truth.isSome then pure f
          else (toTruth? value).map fun b => { f with truth := some b }
        | .items =>
          if f.items.isSome then pure f
          else (toList? value).map fun ds => { f with items := some ds }
        | .unknown => pure f
      takeFields? f rest

/-- The items of a list. -/
def toList? : Item → Option (List Datum)
  | .array items => toData? items
  | .simple n => if isNull n then some [] else none
  | .tag number content =>
    if tagAllows number content && number != 2 && number != 3 then toList? content else none
  | _ => none

/-- The values of several records. -/
def toData? : List Item → Option (List Datum)
  | [] => some []
  | i :: is => do
    let f ← toFields? i
    let ds ← toData? is
    return f.toDatum :: ds

end

end Cbor

/-- The value that bytes record. -/
def Datum.decode? (bs : Bytes) : Option Datum := do
  let i ← Item.decode? bs
  let f ← Cbor.toFields? i
  return f.toDatum

namespace Bindings

/-- Binds a name in a list of bindings; the later of two equal names counts. -/
def bind (bindings : List (String × Datum)) (name : String) (d : Datum) :
    List (String × Datum) :=
  if bindings.any (·.1 == name) then
    bindings.map fun b => if b.1 == name then (name, d) else b
  else bindings ++ [(name, d)]

/-- Reads names and values in turn. A null in place of a name repeats the name before it. -/
def takeBindings? (last : String) (bindings : List (String × Datum)) :
    List Item → Option (List (String × Datum))
  | key :: value :: rest => do
    let name := (← Cbor.toText? key).getD last
    let f ← Cbor.toFields? value
    takeBindings? name (bind bindings name f.toDatum) rest
  | _ => some bindings

/-- The bindings of an item. -/
def ofItem? : Item → Option (List (String × Datum))
  | .map entries => takeBindings? "" [] entries
  | .simple n => if Cbor.isNull n then some [] else none
  | .tag number content =>
    if Cbor.tagAllows number content && number != 2 && number != 3 then ofItem? content else none
  | _ => none

/-- The bindings that bytes record. -/
def decode? (bs : Bytes) : Option (List (String × Datum)) := do
  ofItem? (← Item.decode? bs)

end Bindings

end Blockwork
