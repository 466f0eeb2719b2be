import Blockwork.Markup.Yaml.Cursor
import Blockwork.Number.Numeral

/-!
# Scalars

A scalar is a text in one of four forms. Plain and quoted scalars are words with gaps between
them: a gap within a line stands for itself, a gap with line breaks is folded, so that one break
becomes a space and of several the first is dropped. Block scalars are lines with a common
indentation, kept as they are (literal) or folded, and the breaks at their end are clipped to
one, stripped or kept, as their header says.
-/

namespace Blockwork.Yaml

/-! ### Gaps between words -/

/-- What stands between two words. -/
inductive Gap where
  /-- Blanks of one line. -/
  | blanks (cs : List Char)
  /-- Line breaks: the first, and all others. The first is empty when it was escaped. -/
  | breaks (first others : List Char)

namespace Gap

/-- The text that a gap becomes. -/
def folded : Gap → List Char
  | blanks cs => cs
  | breaks ['\n'] [] => [' ']
  | breaks ['\n'] others => others
  | breaks first others => first ++ others

/-- The gap goes over a line break. -/
def isMultiline : Gap → Bool
  | blanks _ => false
  | breaks .. => true

/-- Reads on in a gap. A tab before column `indent` on a later line is refused. -/
def take (origin : Cursor) (indent : Nat) : (fuel : Nat) → Gap → Cursor →
    Except Fault (Gap × Cursor)
  | 0, g, c => .ok (g, c)
  | fuel + 1, g, c =>
    match c.peek? with
    | none => .ok (g, c)
    | some x =>
      if isBlank x then
        match g with
        | .blanks cs => take origin indent fuel (.blanks (cs ++ [x])) c.advance
        | .breaks .. =>
          if x == '\t' && c.column < indent then .error (c.fault origin .plainTab)
          else take origin indent fuel g c.advance
      else if isBreak x then
        let (b, c) := c.takeBreak
        match g with
        | .blanks _ => take origin indent fuel (.breaks b []) c
        | .breaks first others => take origin indent fuel (.breaks first (others ++ b)) c
      else .ok (g, c)

end Gap

/-! ### Plain scalars -/

/-- A plain scalar ends before the cursor. -/
def endsPlain (inFlow : Bool) (c : Cursor) : Bool :=
  match c.peek? with
  | none => true
  | some x =>
    isGap x || (x == ':' && c.endsAt 1 isGap) ||
      (inFlow && [',', '?', '[', ']', '{', '}'].contains x)

/-- Reads a word of a plain scalar. -/
def takeWord (inFlow : Bool) : (fuel : Nat) → Cursor → List Char × Cursor
  | 0, c => ([], c)
  | fuel + 1, c =>
    match c.peek? with
    | none => ([], c)
    | some x =>
      if endsPlain inFlow c then ([], c)
      else
        let (word, c) := takeWord inFlow fuel c.advance
        (x :: word, c)

/-- Reads a plain scalar on after `text`, with the gap before the cursor. The lines after the first
are indented to column `indent` at least, outside of flow collections. The flag that comes back
says whether the scalar was followed by a line break. -/
def takePlain (inFlow : Bool) (indent : Nat) (origin : Cursor) :
    (fuel : Nat) → (text : List Char) → Gap → Cursor → Except Fault (List Char × Bool × Cursor)
  | 0, text, g, c => .ok (text, g.isMultiline, c)
  | fuel + 1, text, g, c =>
    -- a mark of a document or a comment ends the scalar, and the gap before it is dropped
    if c.atIndicator '-' || c.atIndicator '.' || c.isAt '#' then .ok (text, g.isMultiline, c)
    else
      let (word, next) := takeWord inFlow c.rest.length c
      -- a gap counts only when a word follows it
      let text := if word.isEmpty then text else text ++ g.folded ++ word
      let g := if word.isEmpty then g else .blanks []
      if !(next.peek?.any isGap) then .ok (text, g.isMultiline, next)
      else
        match g.take origin indent next.rest.length next with
        | .error e => .error e
        | .ok (g, next) =>
          if !inFlow && next.column < indent then .ok (text, g.isMultiline, next)
          else takePlain inFlow indent origin fuel text g next

/-! ### Quoted scalars -/

/-- The character that a one-letter escape stands for. -/
def escaped? (x : Char) : Option Char :=
  match x with
  | '0' => some '\x00'
  | 'a' => some '\x07'
  | 'b' => some '\x08'
  | 't' => some '\t'
  | '\t' => some '\t'
  | 'n' => some '\n'
  | 'v' => some '\x0b'
  | 'f' => some '\x0c'
  | 'r' => some '\r'
  | 'e' => some '\x1b'
  | ' ' => some ' '
  | '"' => some '"'
  | '\'' => some '\''
  | '\\' => some '\\'
  | 'N' => some '\u0085'
  | '_' => some '\u00a0'
  | 'L' => some '\u2028'
  | 'P' => some '\u2029'
  | _ => none

/-- How many hexadecimal digits follow the letter of an escape by code. -/
def codeWidth? (x : Char) : Option Nat :=
  match x with
  | 'x' => some 2
  | 'u' => some 4
  | 'U' => some 8
  | _ => none

/-- Reads an escape after its backslash. -/
def takeEscape (origin c : Cursor) : Except Fault (Char × Cursor) :=
  let slash : Cursor := c
  let c := c.advance
  match c.peek? with
  | none => .error (slash.fault origin .unknownEscape)
  | some x =>
    match escaped? x, codeWidth? x with
    | some y, _ => .ok (y, c.advance)
    | none, none => .error (slash.fault origin .unknownEscape)
    | none, some width =>
      let c := c.advance
      let digits := (c.rest.take width).filterMap Numeral.hexDigit?
      let n := Numeral.ofDigits 16 digits
      if digits.length < width then .error (c.fault origin .escapeDigits)
      -- halves of surrogate pairs and what is beyond Unicode are no characters
      else if (0xd800 ≤ n ∧ n < 0xe000) ∨ 0x110000 ≤ n then
        .error (c.fault origin .escapeCode)
      else .ok (Char.ofNat n, c.advanceBy width)

/-- Reads the characters of a quoted scalar up to a gap or its closing quote. The flag that comes
back says that an escaped line break came last. -/
def takeQuotedWord (single : Bool) (origin : Cursor) :
    (fuel : Nat) → Cursor → Except Fault (List Char × Bool × Cursor)
  | 0, c => .ok ([], false, c)
  | fuel + 1, c =>
    let and (x : Char) (next : Except Fault (List Char × Bool × Cursor)) :=
      next.map fun (word, escapedBreak, c) => (x :: word, escapedBreak, c)
    match c.peek? with
    | none => .ok ([], false, c)
    | some x =>
      if isGap x then .ok ([], false, c)
      else if single then
        if x == '\'' then
          -- two single quotes are one, a single one closes
          if c.peekAt? 1 == some '\'' then
            and x (takeQuotedWord single origin fuel (c.advanceBy 2))
          else .ok ([], false, c)
        else and x (takeQuotedWord single origin fuel c.advance)
      else if x == '"' then .ok ([], false, c)
      else if x == '\\' then
        -- an escaped line break leaves nothing behind
        if (c.peekAt? 1).any isBreak then .ok ([], true, c.advance.dropBreak)
        else
          match takeEscape origin c with
          | .error e => .error e
          | .ok (y, c) => and y (takeQuotedWord single origin fuel c)
      else and x (takeQuotedWord single origin fuel c.advance)

/-- Reads a quoted scalar on after `text`, up to its closing quote and over it. -/
def takeQuoted (single : Bool) (origin : Cursor) :
    (fuel : Nat) → (text : List Char) → Cursor → Except Fault (List Char × Cursor)
  | 0, _, c => .error (c.fault origin .unexpectedEnd)
  | fuel + 1, text, c =>
    if c.atIndicator '-' || c.atIndicator '.' then .error (c.fault origin .quotedIndicator)
    else if c.rest.isEmpty then .error (c.fault origin .unexpectedEnd)
    else
      match takeQuotedWord single origin c.rest.length c with
      | .error e => .error e
      | .ok (word, escapedBreak, c) =>
        let text := text ++ word
        if c.isAt (if single then '\'' else '"') then .ok (text, c.advance)
        else
          -- the gap after an escaped break goes on behind that break
          let before := if escapedBreak then Gap.breaks [] [] else .blanks []
          match before.take origin 0 c.rest.length c with
          | .error e => .error e
          | .ok (g, c) => takeQuoted single origin fuel (text ++ g.folded) c

/-! ### Block scalars -/

/-- What becomes of the line breaks at the end of a block scalar. -/
inductive Chomping where
  | strip
  | clip
  | keep
deriving DecidableEq

/-- Reads a chomping mark. -/
def takeChomping (c : Cursor) : Chomping × Cursor :=
  if c.isAt '+' then (.keep, c.advance)
  else if c.isAt '-' then (.strip, c.advance)
  else (.clip, c)

/-- Reads the digit that gives an indentation; zero when there is none. -/
def takeIndent (origin c : Cursor) : Except Fault (Nat × Cursor) :=
  match c.peek?.bind Numeral.decimalDigit? with
  | none => .ok (0, c)
  | some 0 => .error (c.fault origin .zeroIndent)
  | some n => .ok (n, c.advance)

/-- Reads the header of a block scalar after its indicator, up to the end of its line: the two
marks may come in either order. -/
def takeHeader (origin c : Cursor) : Except Fault (Chomping × Nat × Cursor) := do
  let (first, c) := takeChomping c
  let (indent, c) ← takeIndent origin c
  -- the chomping mark may also stand behind the digit
  let (chomping, c) := if first = .clip && indent ≠ 0 then takeChomping c else (first, c)
  let c := c.dropWhile isBlank
  let c := if c.isAt '#' then c.dropLine else c
  if c.atLineEnd then .ok (chomping, indent, c.dropBreak)
  else .error (c.fault origin .headerEnd)

/-- Steps over indentation and empty lines. `indent` is zero as long as it is not known; the breaks
that were met come back, with the greatest column that indentation reached. -/
def takeEmptyLines (origin : Cursor) (indent : Nat) :
    (fuel : Nat) → (deepest : Nat) → Cursor → Except Fault (List Char × Nat × Cursor)
  | 0, deepest, c => .ok ([], deepest, c)
  | fuel + 1, deepest, c =>
    let spaces := (c.rest.takeWhile (· == ' ')).length
    let c := c.advanceBy (if indent = 0 then spaces else min spaces (indent - c.column))
    let deepest := max deepest c.column
    -- a tab in the place of indentation
    if (indent = 0 || c.column < indent) && c.isAt '\t' then .error (c.fault origin .indentTab)
    else if c.peek?.any isBreak then
      let (b, c) := c.takeBreak
      match takeEmptyLines origin indent fuel deepest c with
      | .error e => .error e
      | .ok (bs, deepest, c) => .ok (b ++ bs, deepest, c)
    else .ok ([], deepest, c)

/-- Reads the lines of a block scalar after `text`. `ended` is the break that ended the line
before, `empty` the breaks of the empty lines after it, and `indented` says that it began with a
blank. The last two breaks come back with the text. -/
def takeLines (literal : Bool) (origin : Cursor) (indent : Nat) :
    (fuel : Nat) → (text ended empty : List Char) → (indented : Bool) → Cursor →
      Except Fault (List Char × List Char × List Char × Cursor)
  | 0, text, ended, empty, _, c => .ok (text, ended, empty, c)
  | fuel + 1, text, ended, empty, indented, c =>
    if c.column ≠ indent || c.rest.isEmpty then .ok (text, ended, empty, c)
    else
      let blank := c.peek?.any isBlank
      -- a folded break between two lines that begin with no blank becomes a space
      let joint :=
        if !literal && !indented && !blank && ended == ['\n'] then
          if empty.isEmpty then [' '] else []
        else ended
      let (line, c) := c.takeWhile fun x => !isBreak x
      let text := text ++ joint ++ empty ++ line
      let (ended, c) := c.takeBreak
      match takeEmptyLines origin indent (c.rest.length + 1) 0 c with
      | .error e => .error e
      | .ok (empty, _, c) => takeLines literal origin indent fuel text ended empty blank c

/-- Reads a block scalar whose indicator is at the cursor. `outer` is the column that the block
around it is indented to, if there is one. -/
def takeBlock (literal : Bool) (outer : Option Nat) (origin : Cursor) :
    Except Fault (List Char × Cursor) := do
  let (chomping, given, c) ← takeHeader origin origin.advance
  -- a given indentation counts from that of the block around
  let fixed := if given = 0 then 0 else outer.getD 0 + given
  let (empty, deepest, c) ← takeEmptyLines origin fixed (c.rest.length + 1) 0 c
  -- otherwise the first lines show it, and it is deeper than that of the block around
  let least := max 1 (match outer with
    | some column => column + 1
    | none => 0)
  let indent := if fixed = 0 then max deepest least else fixed
  let (text, ended, empty, c) ←
    takeLines literal origin indent (c.rest.length + 1) [] [] empty false c
  return (match chomping with
    | .strip => text
    | .clip => text ++ ended
    | .keep => text ++ ended ++ empty, c)

end Blockwork.Yaml
