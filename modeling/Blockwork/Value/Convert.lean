import Blockwork.Number.Display
import Blockwork.Number.Numeral
import Blockwork.Text.Blank
import Blockwork.Text.Case
import Blockwork.Text.Quoted
import Blockwork.Value.Basic

/-!
# Conversions of values

How a value reads as a number, as a list, as a condition and as a text. Conversion to a number
and to a list can fail; the failure is a `Mismatch` that keeps the kind that was wanted and the
value that was found.
-/

namespace Blockwork

/-- A value of another kind than the one that was wanted. -/
structure Mismatch where
  wanted : Kind
  got : Value
deriving DecidableEq

namespace Mismatch

/-- The message of a mismatch; a text is quoted. -/
def message (m : Mismatch) : String :=
  match m.got with
  | .text s => "expected " ++ m.wanted.name ++ ", got string " ++ Text.quote s
  | v => "expected " ++ m.wanted.name ++ ", got " ++ v.kind.name

end Mismatch

/-! ### Display -/

namespace Datum

mutual

/-- The text that shows a value: items of a list are separated by single spaces. -/
def display : Datum → String
  | .undefined => ""
  | .number n => n.display
  | .text s => s
  | .truth b => if b then "true" else "false"
  | .list ds => " ".intercalate (displayAll ds)
  | .noList => ""

/-- The texts of several values. -/
def displayAll : List Datum → List String
  | [] => []
  | d :: ds => d.display :: displayAll ds

end

end Datum

namespace Value

/-- The text that shows a value, if no list that is met in it lies inside itself. Of such a list
the program never finds a text. -/
def display (s : Store) (v : Value) : String := (s.read v).display

/-- The text of a value that is no list. -/
def scalarText : Value → String
  | .number n => n.display
  | .text s => s
  | .truth b => if b then "true" else "false"
  | _ => ""

/-! ### Numbers, lists and conditions -/

/-- The value as a number. Texts are read as numerals, truth values are one and zero, undefined
and blank texts are zero. -/
def toNumber : Value → Except Mismatch Binary64
  | .number n => .ok n
  | .truth b => .ok (if b then .one else .zero)
  | .undefined => .ok .zero
  | .text s =>
    if Text.isAllBlank s then .ok .zero
    else match Binary64.read? s with
      | some n => .ok n
      | none => .error ⟨.number, .text s⟩
  | v => .error ⟨.number, v⟩

/-- The value as a whole number, cut toward zero. The program does not look whether the number fits
into 64 bits, and leaves to the processor what becomes of one that does not; here it is the nearest
one that does, and zero for not-a-number. -/
def toInteger (v : Value) : Except Mismatch Int := v.toNumber.map Binary64.toIndex

/-- The list that the value refers to. -/
def toList : Value → Except Mismatch ListId
  | .list id => .ok id
  | v => .error ⟨.list, v⟩

/-- The value as a condition. -/
def truthy (s : Store) : Value → Bool
  | .truth b => b
  | .number n => !n.isNaN && n.magnitude != 0
  | .text t =>
    let t := Text.lower (Text.trim t)
    t != "" && t != "false" && t != "0"
  | .list id => !(s.items id).isEmpty
  | _ => false

/-- A value that is compared as a number: a number, a truth value, or a text that reads as one
and is not blank. -/
def isNumeric : Value → Bool
  | .number _ => true
  | .truth _ => true
  | .text s => !Text.isAllBlank s && (Binary64.read? s).isSome
  | _ => false

/-- The number of a numeric value. -/
def numericValue : Value → Binary64 := fun v => (v.toNumber.toOption).getD .zero

end Value

end Blockwork
