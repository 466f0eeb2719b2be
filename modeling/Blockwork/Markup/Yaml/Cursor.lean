import Blockwork.Markup.Yaml.Fault

/-!
# A place in the characters of a document

A cursor is what is left to read, with its line, its column and its distance from the beginning.
Five characters break lines; a carriage return and a line feed together are one break. When
breaks are part of a text, the line and paragraph separators stand for themselves and every other
break becomes a line feed.
-/

namespace Blockwork.Yaml

/-- A blank inside a line. -/
def isBlank (c : Char) : Bool := c == ' ' || c == '\t'

/-- A character that ends a line. -/
def isBreak (c : Char) : Bool :=
  c == '\n' || c == '\r' || c == '\u0085' || c == '\u2028' || c == '\u2029'

/-- A blank or a line break. -/
def isGap (c : Char) : Bool := isBlank c || isBreak c

/-- A character of names: an ASCII letter or digit, the underscore or the hyphen. -/
def isNameChar (c : Char) : Bool := c.isAlphanum || c == '_' || c == '-'

/-- A place in the characters of a document. -/
structure Cursor where
  rest : List Char
  index : Nat
  line : Nat
  column : Nat
  /-- Since the last line break there were blanks only, and there was a line break. -/
  fresh : Bool

namespace Cursor

/-- The beginning of a document. -/
def start (cs : List Char) : Cursor := ⟨cs, 0, 0, 0, false⟩

/-- The character at the cursor. -/
def peek? (c : Cursor) : Option Char := c.rest.head?

/-- The character `n` places after the cursor. -/
def peekAt? (c : Cursor) (n : Nat) : Option Char := c.rest[n]?

/-- The cursor is at a given character. -/
def isAt (c : Cursor) (x : Char) : Bool := c.peek? == some x

/-- The place `n` after the cursor holds a character of a class, or the document has ended
there. -/
def endsAt (c : Cursor) (n : Nat) (p : Char → Bool) : Bool :=
  match c.peekAt? n with
  | some x => p x
  | none => true

/-- The line ends here. -/
def atLineEnd (c : Cursor) : Bool := c.endsAt 0 isBreak

/-- A word ends here. -/
def atGap (c : Cursor) : Bool := c.endsAt 0 isGap

/-- Steps over one character of a line. -/
def advance (c : Cursor) : Cursor :=
  match c.rest with
  | [] => c
  | x :: rest => ⟨rest, c.index + 1, c.line, c.column + 1, c.fresh && isBlank x⟩

/-- Steps over `n` characters of a line. -/
def advanceBy (c : Cursor) : Nat → Cursor
  | 0 => c
  | n + 1 => c.advance.advanceBy n

/-- Splits off the longest run of characters of a class, which has no line breaks in it. -/
def takeWhile (c : Cursor) (p : Char → Bool) : List Char × Cursor :=
  let run := c.rest.takeWhile p
  (run, ⟨c.rest.drop run.length, c.index + run.length, c.line, c.column + run.length,
    c.fresh && run.all isBlank⟩)

/-- Steps over the longest run of characters of a class, which has no line breaks in it. -/
def dropWhile (c : Cursor) (p : Char → Bool) : Cursor := (c.takeWhile p).2

/-- Steps over a line break, if there is one, and gives it as a part of a text. -/
def takeBreak (c : Cursor) : List Char × Cursor :=
  match c.rest with
  | '\r' :: '\n' :: rest => (['\n'], ⟨rest, c.index + 2, c.line + 1, 0, true⟩)
  | x :: rest =>
    if isBreak x then
      ([if x == '\u2028' || x == '\u2029' then x else '\n'],
        ⟨rest, c.index + 1, c.line + 1, 0, true⟩)
    else ([], c)
  | [] => ([], c)

/-- Steps over a line break, if there is one. -/
def dropBreak (c : Cursor) : Cursor := c.takeBreak.2

/-- Steps over the rest of the line. -/
def dropLine (c : Cursor) : Cursor := c.dropWhile fun x => !isBreak x

/-- At the beginning of a line stands `---` or `...`, given by its character. -/
def atIndicator (c : Cursor) (x : Char) : Bool :=
  c.column == 0 && c.rest.take 3 == [x, x, x] && c.endsAt 3 isGap

/-- The line that a fault found here is reported at, when what it is part of began at `origin`. -/
def faultLine (c origin : Cursor) : Nat :=
  if origin.line ≠ 0 then origin.line + 1 else if c.line ≠ 0 then c.line + 1 else 0

/-- The fault of a problem found here, in something that began at `origin`. -/
def fault (c origin : Cursor) (p : Problem) : Fault := .malformed p (c.faultLine origin)

end Cursor

end Blockwork.Yaml
