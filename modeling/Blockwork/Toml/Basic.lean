import Blockwork.Number.Calendar
import Blockwork.Text.Quoted
import Blockwork.Text.Utf8

/-!
# TOML documents

A document is a sequence of statements: headers that open a table or a further table of an array,
and entries that give a key its value. Keys are paths of names. Of floating-point numbers and points
in time only the fact is kept that they are there: nothing is configured by them.
-/

namespace Blockwork.Toml

/-- A path of names. -/
abbrev Key := List String

/-- A value as it is written. -/
inductive Literal where
  | text (s : String)
  | integer (n : Int)
  | truth (b : Bool)
  | real
  | moment
  | array (items : List Literal)
  | inline (entries : List (Key × Literal))
deriving Inhabited

/-- A statement. -/
inductive Statement where
  /-- The header of a table. -/
  | table (key : Key)
  /-- The header of a further table of an array. -/
  | element (key : Key)
  | entry (key : Key) (value : Literal)
deriving Inhabited

/-- Why a text is no document. -/
inductive Fault where
  /-- A byte that begins no character. -/
  | encoding
  /-- A control character. -/
  | control
  /-- A text that is no statement, with its line counted from one. -/
  | statement (line : Nat)
  /-- A name that is defined already. -/
  | defined (key : Key)
deriving DecidableEq, Inhabited

/-! ### Keys as texts -/

/-- A character of a name that needs no quotes. -/
def isBareChar (c : Char) : Bool := c.isAlphanum || c == '_' || c == '-'

/-- A character of a name in quotes. -/
def quoteNameChar (c : Char) : List Char :=
  if c == '"' || c == '\\' then ['\\', c]
  else if c == '\x08' then ['\\', 'b']
  else if c == '\t' then ['\\', 't']
  else if c == '\n' then ['\\', 'n']
  else if c == '\x0c' then ['\\', 'f']
  else if c == '\r' then ['\\', 'r']
  else if c.toNat < 0x20 || c.toNat == 0x7f then '\\' :: 'u' :: Text.hexDigits 4 c.toNat
  else [c]

/-- A name in a key, in quotes where it has to be. -/
def nameText (s : String) : String :=
  let cs := s.toList
  if cs.isEmpty || !cs.all isBareChar then
    String.ofList ('"' :: cs.flatMap quoteNameChar ++ ['"'])
  else s

/-- A key as it is shown. -/
def keyText (k : Key) : String := ".".intercalate (k.map nameText)

namespace Fault

/-- The message of a fault. -/
def message : Fault → String
  | encoding => "invalid UTF-8 byte"
  | control => "control characters are not allowed"
  | statement line => "line " ++ toString line ++ ": no statement"
  | defined k => "Key '" ++ keyText k ++ "' has already been defined."

end Fault

end Blockwork.Toml
