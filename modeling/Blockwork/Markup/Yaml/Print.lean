import Blockwork.Markup.Node
import Blockwork.Markup.Yaml.Style
import Blockwork.Text.Letter

/-!
# Writing elements in YAML

An element is a mapping of its tag, its attributes, its text and its children, in this order;
empty attributes, text and children are left out. Attributes are in natural order: letters follow
one another by code, letters come after everything else unless digits stand before them, and
numbers within names are compared as numbers. An absent child is written as null.
-/

namespace Blockwork.Yaml

/-! ### Natural order -/

/-- The number that the digits at the beginning write, from `start` on, and how many there are.
Numbers wrap around at 64 bits. -/
def leadingNumber (start : Int64) (cs : List Char) : Int64 × Nat :=
  let digits := cs.takeWhile Text.isDigit
  (digits.foldl (fun n c => n * 10 + (Int64.ofNat c.toNat - 48)) start, digits.length)

/-- Compares two names from their first difference on. `before` is what they share, the last
character first. -/
def differsBelow (before : List Char) (a b : Char) (as bs : List Char) : Bool :=
  let afterDigit := before.head?.any Text.isDigit
  match Text.isLetter a, Text.isLetter b with
  | true, true => a < b
  | true, false => afterDigit
  | false, true => !afterDigit
  | false, false =>
    let start : Int64 :=
      if (a == '0' || b == '0') && (before.takeWhile Text.isDigit).any (· != '0') then 1 else 0
    let (m, i) := leadingNumber start (a :: as)
    let (n, j) := leadingNumber start (b :: bs)
    if m ≠ n then m < n else if i ≠ j then i < j else a < b

/-- A name comes before another in natural order. -/
def naturalBelow (before : List Char) : List Char → List Char → Bool
  | a :: as, b :: bs =>
    if a = b then naturalBelow (a :: before) as bs else differsBelow before a b as bs
  | [], _ :: _ => true
  | _, [] => false

/-- Attributes in the natural order of their names. -/
def inNaturalOrder (attributes : List (String × String)) : List (String × String) :=
  attributes.mergeSort fun x y => !naturalBelow [] y.1.toList x.1.toList

/-! ### Elements -/

/-- A name that fits on a line with its value. -/
def isShortKey (s : String) : Bool := !isMultiline s.toList && s.utf8ByteSize ≤ 128

/-- An entry of a mapping at column `indent` whose value is a text. -/
def writeEntry (indent : Nat) (name value : String) : List Char :=
  let inner := indent + 2
  if isShortKey name then
    spaces indent ++ writeText inner name ++ ':' :: ' ' :: writeLine inner value
  else
    spaces indent ++ '?' :: ' ' :: writeLine inner name ++ spaces indent ++ ':' :: ' ' ::
      writeLine inner value

mutual

/-- An element, or null, at column `indent`; the first line is not indented. -/
def writeNode (indent : Nat) : Node → List Char
  | .absent => "null\n".toList
  | .element tag attributes body children =>
    "tag: ".toList ++ writeLine (indent + 2) tag ++
      (if attributes.isEmpty then []
        else spaces indent ++ "attrs:\n".toList ++
          (inNaturalOrder attributes).flatMap fun (n, v) => writeEntry (indent + 2) n v) ++
      (if body.isEmpty then []
        else spaces indent ++ "text: ".toList ++ writeLine (indent + 2) body) ++
      (if children.isEmpty then []
        else spaces indent ++ "children:\n".toList ++ writeItems (indent + 2) children)

/-- The items of a sequence at column `indent`. -/
def writeItems (indent : Nat) : List Node → List Char
  | [] => []
  | n :: rest =>
    spaces indent ++ '-' :: ' ' :: writeNode (indent + 2) n ++ writeItems indent rest

end

end Blockwork.Yaml

namespace Blockwork.Node

/-- The YAML form of a tree. -/
def toYaml (n : Node) : String := String.ofList (Yaml.writeNode 0 n)

end Blockwork.Node
