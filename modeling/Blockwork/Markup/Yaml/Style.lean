import Blockwork.Markup.Yaml.Cursor
import Blockwork.Markup.Yaml.Kind
import Blockwork.Text.Quoted

/-!
# How texts are written in YAML

A text is written plain when it then reads back as a text, and in quotes otherwise: in double
quotes when only the quotes keep it from being taken for a number, a truth value or nothing, in
single quotes when its shape asks for quotes, and in double quotes again when it has characters that
must be escaped or blanks at line breaks. A text with line feeds is written as a literal block where
a block can hold it.

Literal blocks have no line of their own for a line feed at the beginning of the text: it closes the
header, so that it is gone when the text is read again.
-/

namespace Blockwork.Yaml

/-! ### The shape of a text -/

/-- A character that may be written as it is. -/
def isShown (c : Char) : Bool :=
  let n := c.toNat
  n == 0x0a || (0x20 ≤ n && n ≤ 0x7e) || (0xa0 ≤ n && n ≤ 0xfffd && n != 0xfeff)

/-- Some two neighbours are of two classes. -/
def hasPair (p q : Char → Bool) : List Char → Bool
  | a :: b :: rest => (p a && q b) || hasPair p q (b :: rest)
  | _ => false

/-- The text has line breaks in it. -/
def isMultiline (cs : List Char) : Bool := cs.any isBreak

/-- The text has characters that must be escaped, tabs apart. -/
def hasHidden (cs : List Char) : Bool := cs.any fun c => c != '\t' && !isShown c

/-- A space stands before a line break. -/
def hasSpaceBreak (cs : List Char) : Bool := hasPair (· == ' ') isBreak cs

/-- A space stands after a line break. -/
def hasBreakSpace (cs : List Char) : Bool := hasPair isBreak (· == ' ') cs

/-- The text ends, or goes on with a blank. -/
def beginsBlank : List Char → Bool
  | [] => true
  | c :: _ => isBlank c

/-- After the first character: a colon before a blank or the end, or a number sign after a gap. -/
def hasInnerIndicator : (afterGap : Bool) → List Char → Bool
  | _, [] => false
  | afterGap, c :: rest =>
    (c == ':' && beginsBlank rest) || (c == '#' && afterGap) || hasInnerIndicator (isGap c) rest

/-- The text would be taken for something else than a plain scalar. -/
def hasIndicator (cs : List Char) : Bool :=
  cs.take 3 == ['-', '-', '-'] || cs.take 3 == ['.', '.', '.'] ||
    match cs with
    | [] => false
    | c :: rest =>
      ['#', ',', '[', ']', '{', '}', '&', '*', '!', '|', '>', '\'', '"', '%', '@',
          '\x60'].contains c ||
        ((c == '?' || c == ':' || c == '-') && beginsBlank rest) ||
        hasInnerIndicator (isGap c) rest

/-- A space or a line break. -/
def isSpaceOrBreak (c : Char) : Bool := c == ' ' || isBreak c

/-- A plain scalar can hold the text. -/
def fitsPlain (cs : List Char) : Bool :=
  !(cs.head?.any isSpaceOrBreak || cs.getLast?.any isSpaceOrBreak || cs.contains '\t' ||
    hasHidden cs || isMultiline cs || hasIndicator cs)

/-- Single quotes can hold the text. -/
def fitsSingle (cs : List Char) : Bool :=
  !(hasBreakSpace cs || hasSpaceBreak cs || cs.contains '\t' || hasHidden cs)

/-- A block can hold the text. -/
def fitsBlock (cs : List Char) : Bool :=
  !(cs.isEmpty || cs.getLast? == some ' ' || hasSpaceBreak cs || hasHidden cs)

/-! ### The choice of a style -/

/-- Words that older readers take for truth values. -/
def oldTruths : List String :=
  ["y", "Y", "yes", "Yes", "YES", "on", "On", "ON", "n", "N", "no", "No", "NO", "off", "Off", "OFF"]

/-- One or more groups of a colon and a number below sixty, and after them an optional point with
digits and underscores. -/
def isSexagesimalTail : (found : Bool) → List Char → Bool
  | found, [] => found
  | found, '.' :: rest => found && rest.all fun c => c.isDigit || c == '_'
  | _, ':' :: a :: b :: rest =>
    if b.isDigit then '0' ≤ a && a ≤ '5' && isSexagesimalTail true rest
    else a.isDigit && isSexagesimalTail true (b :: rest)
  | _, [':', a] => a.isDigit
  | _, _ => false

/-- A number of base sixty, which older readers know. -/
def isSexagesimal (cs : List Char) : Bool :=
  let (_, _, cs) := splitSign cs
  match cs with
  | c :: rest =>
    c.isDigit && isSexagesimalTail false (rest.dropWhile fun c => c.isDigit || c == '_')
  | [] => false

/-- The text, written plain, is a text for every reader. -/
def standsForText (s : String) : Bool :=
  kindOf true s = .text && !isSexagesimal s.toList && !oldTruths.contains s

/-- The ways to write a text. -/
inductive Style where
  | plain
  | single
  | double
  | literal
deriving DecidableEq, Inhabited

/-- The style of a text. -/
def styleOf (s : String) : Style :=
  let cs := s.toList
  if cs.contains '\n' then if fitsBlock cs then .literal else .double
  else if !standsForText s then .double
  else if fitsPlain cs then .plain
  else if fitsSingle cs then .single
  else .double

/-! ### Writing -/

/-- A number of spaces. -/
def spaces (n : Nat) : List Char := List.replicate n ' '

/-- The last `width` hexadecimal digits of a number, in upper case. -/
def upperHex (width n : Nat) : List Char := (Text.hexDigits width n).map Char.toUpper

/-- A character that is escaped in double quotes. -/
def isEscaped (c : Char) : Bool := !isShown c || isBreak c || c == '"' || c == '\\'

/-- A character in double quotes. -/
def escapeChar (c : Char) : List Char :=
  if !isEscaped c then [c]
  else match c.toNat with
    | 0x00 => ['\\', '0']
    | 0x07 => ['\\', 'a']
    | 0x08 => ['\\', 'b']
    | 0x09 => ['\\', 't']
    | 0x0a => ['\\', 'n']
    | 0x0b => ['\\', 'v']
    | 0x0c => ['\\', 'f']
    | 0x0d => ['\\', 'r']
    | 0x1b => ['\\', 'e']
    | 0x22 => ['\\', '"']
    | 0x5c => ['\\', '\\']
    | 0x85 => ['\\', 'N']
    | 0xa0 => ['\\', '_']
    | 0x2028 => ['\\', 'L']
    | 0x2029 => ['\\', 'P']
    | n =>
      if n ≤ 0xff then '\\' :: 'x' :: upperHex 2 n
      else if n ≤ 0xffff then '\\' :: 'u' :: upperHex 4 n
      else '\\' :: 'U' :: upperHex 8 n

/-- A text in double quotes. -/
def writeDouble (cs : List Char) : List Char := '"' :: cs.flatMap escapeChar ++ ['"']

/-- The inside of single quotes: a quote is doubled, and a line goes on at column `indent`. -/
def singleBody (indent : Nat) : (afterBreak : Bool) → List Char → List Char
  | _, [] => []
  | afterBreak, c :: rest =>
    if isBreak c then c :: singleBody indent true rest
    else
      (if afterBreak then spaces indent else []) ++ (if c == '\'' then [c, c] else [c]) ++
        singleBody indent false rest

/-- A text in single quotes. -/
def writeSingle (indent : Nat) (cs : List Char) : List Char :=
  '\'' :: singleBody indent false cs ++ ['\'']

/-- The marks in the header of a literal block: the indentation where the text does not show it,
and what becomes of the line breaks at its end. -/
def literalMarks (cs : List Char) : List Char :=
  (if cs.head?.any isSpaceOrBreak then ['2'] else []) ++
    match cs.reverse with
    | [] => ['-']
    | [c] => if isBreak c then ['+'] else ['-']
    | c :: d :: _ => if !isBreak c then ['-'] else if isBreak d then ['+'] else []

/-- The lines of a literal block. `headed` says that the header still has to be closed, and
`afterBreak` that a line begins. -/
def literalBody (indent : Nat) : (headed afterBreak : Bool) → List Char → List Char
  | _, _, [] => []
  | headed, afterBreak, c :: rest =>
    if isBreak c then c :: literalBody indent false true rest
    else
      (if headed then ['\n'] else []) ++ (if afterBreak then spaces indent else []) ++
        c :: literalBody indent false false rest

/-- A text as a literal block. -/
def writeLiteral (indent : Nat) (cs : List Char) : List Char :=
  '|' :: literalMarks cs ++ literalBody indent true true cs

/-- A text in its style, in a place whose further lines are indented by `indent`. -/
def writeText (indent : Nat) (s : String) : List Char :=
  let cs := s.toList
  match styleOf s with
  | .plain => cs
  | .single => writeSingle indent cs
  | .double => writeDouble cs
  | .literal => writeLiteral indent cs

/-- A text with the end of its line; a block that ends with a line break has ended it. -/
def writeLine (indent : Nat) (s : String) : List Char :=
  writeText indent s ++
    if styleOf s = .literal && s.toList.getLast?.any isBreak then [] else ['\n']

end Blockwork.Yaml
