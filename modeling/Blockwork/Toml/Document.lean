import Blockwork.Toml.Literal

/-!
# Reading documents

A document is text in UTF-8, after an optional byte order mark. Of the control characters it has
only tabs and line ends. Each statement stands on a line of its own; blanks, empty lines and
comments stand anywhere between statements.
-/

namespace Blockwork.Toml

/-- Drops a byte order mark. -/
def dropMark : Text.Bytes → Text.Bytes
  | 0xef :: 0xbb :: 0xbf :: rest => rest
  | 0xff :: 0xfe :: rest => rest
  | 0xfe :: 0xff :: rest => rest
  | bs => bs

/-- There are no control characters but tabs and line ends. -/
def controlsAllowed : List Char → Bool
  | [] => true
  | '\r' :: rest =>
    (match rest with
      | '\n' :: _ => true
      | _ => false) && controlsAllowed rest
  | c :: rest =>
    (c == '\t' || c == '\n' || !(c.toNat < 0x20 || c.toNat == 0x7f)) && controlsAllowed rest

/-! ### Statements -/

/-- The key of a header up to its closing bracket, and the rest after the bracket. -/
def takeHeaderKey? (cs : List Char) : Option (Key × List Char) := do
  let (key, rest) ← takeKey? cs.length cs
  match rest with
  | ']' :: rest => return (key, rest)
  | _ => none

/-- Reads a statement. -/
def takeStatement? : List Char → Option (Statement × List Char)
  | '[' :: '[' :: rest => do
    let (key, rest) ← takeHeaderKey? rest
    match rest with
    | ']' :: rest => return (.element key, rest)
    | _ => none
  | '[' :: rest => (takeHeaderKey? rest).map fun (key, rest) => (.table key, rest)
  | cs => do
    let (key, rest) ← takeKey? cs.length cs
    match rest with
    | '=' :: rest =>
      let (value, rest) ← takeValue? (rest.length + 1) rest
      return (.entry key value, rest)
    | _ => none

/-- The rest after the end of a line that holds at most a comment. -/
def takeLineEnd? (cs : List Char) : Option (List Char) :=
  match cs.dropWhile isBlank with
  | [] => some []
  | '\n' :: rest => some rest
  | '\r' :: '\n' :: rest => some rest
  | '#' :: rest => some (rest.dropWhile (· != '\n'))
  | _ => none

/-- Reads statements to the end; `total` is the number of lines of the whole text. -/
def takeStatements (total : Nat) : (fuel : Nat) → List Char → Except Fault (List Statement)
  | 0, _ => .ok []
  | fuel + 1, cs =>
    match dropGaps false cs with
    | [] => .ok []
    | cs =>
      match takeStatement? cs with
      | none => .error (.statement (total - cs.count '\n'))
      | some (statement, rest) =>
        match takeLineEnd? rest with
        | none => .error (.statement (total - rest.count '\n'))
        | some rest => do
          let statements ← takeStatements total fuel rest
          return statement :: statements

/-- The statements of a document. -/
def statements (bs : Text.Bytes) : Except Fault (List Statement) :=
  match Text.decode? (dropMark bs) with
  | none => .error .encoding
  | some cs =>
    if controlsAllowed cs then takeStatements (cs.count '\n' + 1) (cs.length + 1) cs
    else .error .control

end Blockwork.Toml
