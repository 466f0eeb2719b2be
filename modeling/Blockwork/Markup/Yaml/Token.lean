import Blockwork.Markup.Yaml.Scalar
import Blockwork.Text.Utf8

/-!
# The tokens of a YAML document

Tokens are indicators, scalars, and the marks that indentation leaves: where a block collection
begins and where it ends. This module has the tokens and those readers that need nothing but the
characters at the cursor; which token comes next is decided by the lexer.
-/

namespace Blockwork.Yaml

/-- What a token is. -/
inductive Lexeme where
  | documentEnd
  | documentStart
  | streamEnd
  | version (major minor : Nat)
  /-- A handle of tags, and the text that it stands for. -/
  | handle (name base : String)
  | blockSequenceStart
  | blockMappingStart
  | blockEnd
  | flowSequenceStart
  | flowSequenceEnd
  | flowMappingStart
  | flowMappingEnd
  | blockEntry
  | flowEntry
  | key
  | value
  | reference (name : String)
  | anchor (name : String)
  | tag (handle suffix : String)
  | scalar (plain : Bool) (text : String)
deriving DecidableEq, Inhabited

/-- A token and the line where it begins, counted from zero. -/
structure Token where
  lexeme : Lexeme
  line : Nat
deriving DecidableEq, Inhabited

/-! ### Anchors and references -/

/-- A character that may follow the name of an anchor. -/
def endsName (c : Char) : Bool :=
  isGap c || ['?', ':', ',', ']', '}', '%', '@', '\x60'].contains c

/-- Reads the name after `&` or `*`. -/
def takeAnchor (origin : Cursor) : Except Fault (String × Cursor) :=
  let (name, c) := origin.advance.takeWhile isNameChar
  if name.isEmpty || !c.endsAt 0 endsName then .error (c.fault origin .anchorName)
  else .ok (String.ofList name, c)

/-! ### Tags -/

/-- A character of the text of a tag. -/
def isTagChar (c : Char) : Bool :=
  isNameChar c || [';', '/', '?', ':', '@', '&', '=', '+', '$', ',', '.', '!', '~', '*', '\'', '(',
    ')', '[', ']', '%'].contains c

/-- Reads the handle of a tag: an exclamation mark, a name, and the closing mark if it is there. A
handle that is declared has to be closed, unless it is the single mark. -/
def takeHandle (declared : Bool) (origin c : Cursor) : Except Fault (List Char × Cursor) :=
  if !c.isAt '!' then .error (c.fault origin .handleStart)
  else
    let (name, c) := c.advance.takeWhile isNameChar
    if c.isAt '!' then .ok ('!' :: name ++ ['!'], c.advance)
    else if declared && !name.isEmpty then .error (c.fault origin .handleStart)
    else .ok ('!' :: name, c)

/-- Reads `count` more bytes that are written with percent signs. -/
def takeEscapedBytes (origin : Cursor) : (count : Nat) → Cursor →
    Except Fault (Text.Bytes × Cursor)
  | 0, c => .ok ([], c)
  | count + 1, c =>
    match c.rest with
    | '%' :: x :: y :: _ =>
      match Numeral.hexDigit? x, Numeral.hexDigit? y with
      | some m, some n =>
        let b := (16 * m + n).toUInt8
        if !Text.isContinuation b then .error (c.fault origin .escapedTrailingByte)
        else do
          let (bs, c) ← takeEscapedBytes origin count (c.advanceBy 3)
          return (b :: bs, c)
      | _, _ => .error (c.fault origin .escapedByte)
    | _ => .error (c.fault origin .escapedByte)

/-- Reads one character that is written by its bytes. -/
def takeEscapedChar (origin c : Cursor) : Except Fault (List Char × Cursor) :=
  match c.rest with
  | '%' :: x :: y :: _ =>
    match Numeral.hexDigit? x, Numeral.hexDigit? y with
    | some m, some n =>
      let b := (16 * m + n).toUInt8
      let size :=
        if b < 0x80 then 1
        else if b < 0xc0 then 0
        else if b < 0xe0 then 2
        else if b < 0xf0 then 3
        else if b < 0xf8 then 4
        else 0
      if size = 0 then .error (c.fault origin .escapedLeadingByte)
      else do
        let (bs, c) ← takeEscapedBytes origin (size - 1) (c.advanceBy 3)
        return (Text.decodeLossy (b :: bs), c)
    | _, _ => .error (c.fault origin .escapedByte)
  | _ => .error (c.fault origin .escapedByte)

/-- Reads the text of a tag. -/
def takeTagText (origin : Cursor) : (fuel : Nat) → Cursor → Except Fault (List Char × Cursor)
  | 0, c => .ok ([], c)
  | fuel + 1, c =>
    match c.peek? with
    | none => .ok ([], c)
    | some x =>
      if x == '%' then do
        let (head, c) ← takeEscapedChar origin c
        let (tail, c) ← takeTagText origin fuel c
        return (head ++ tail, c)
      else if isTagChar x then do
        let (tail, c) ← takeTagText origin fuel c.advance
        return (x :: tail, c)
      else .ok ([], c)

/-- Reads the text of a tag, which must not be empty. -/
def takeSomeTagText (origin c : Cursor) : Except Fault (List Char × Cursor) := do
  let (text, c) ← takeTagText origin c.rest.length c
  if text.isEmpty then .error (c.fault origin .tagText) else return (text, c)

/-- Reads a tag: the whole text between `!<` and `>`, a handle with a suffix, or a suffix of the
handle `!`. The single mark is a tag of its own, without a handle. -/
def takeTag (origin : Cursor) : Except Fault (Lexeme × Cursor) := do
  let (lexeme, c) ←
    if origin.peekAt? 1 == some '<' then do
      let (text, c) ← takeSomeTagText origin (origin.advanceBy 2)
      if c.isAt '>' then pure (Lexeme.tag "" (String.ofList text), c.advance)
      else .error (c.fault origin .tagClose)
    else do
      let (handle, c) ← takeHandle false origin origin
      if 1 < handle.length && handle.getLast? == some '!' then do
        let (text, c) ← takeSomeTagText origin c
        pure (Lexeme.tag (String.ofList handle) (String.ofList text), c)
      else do
        let (text, c) ← takeTagText origin c.rest.length c
        let suffix := handle.drop 1 ++ text
        if suffix.isEmpty then pure (Lexeme.tag "" "!", c)
        else pure (Lexeme.tag "!" (String.ofList suffix), c)
  if c.atGap then return (lexeme, c) else .error (c.fault origin .tagEnd)

/-! ### Directives -/

/-- Reads one number of a version, of two digits at most. -/
def takeVersionNumber (origin c : Cursor) : Except Fault (Nat × Cursor) :=
  let (digits, next) := c.takeWhile Char.isDigit
  if digits.isEmpty then .error (c.fault origin .versionNumber)
  else if 2 < digits.length then .error (c.fault origin .longVersion)
  else .ok (Numeral.ofDigits 10 (digits.filterMap Numeral.decimalDigit?), next)

/-- Reads the value of a version directive. -/
def takeVersion (origin c : Cursor) : Except Fault (Lexeme × Cursor) := do
  let (major, c) ← takeVersionNumber origin (c.dropWhile isBlank)
  if !c.isAt '.' then .error (c.fault origin .versionPoint)
  else
    let (minor, c) ← takeVersionNumber origin c.advance
    return (.version major minor, c)

/-- Reads the value of a directive that declares a handle. -/
def takeHandleDirective (origin c : Cursor) : Except Fault (Lexeme × Cursor) := do
  let (name, c) ← takeHandle true origin (c.dropWhile isBlank)
  if !(c.peek?.any isBlank) then .error (c.fault origin .handleEnd)
  else
    let (base, c) ← takeSomeTagText origin (c.dropWhile isBlank)
    if c.atGap then return (.handle (String.ofList name) (String.ofList base), c)
    else .error (c.fault origin .baseEnd)

/-- Reads a directive with its whole line. -/
def takeDirective (origin : Cursor) : Except Fault (Lexeme × Cursor) := do
  let (name, c) := origin.advance.takeWhile isNameChar
  if name.isEmpty then .error (c.fault origin .directiveName)
  else if !c.atGap then .error (c.fault origin .directiveNameEnd)
  else
    let (lexeme, c) ←
      if name == "YAML".toList then takeVersion origin c
      else if name == "TAG".toList then takeHandleDirective origin c
      else .error (c.fault origin .unknownDirective)
    let c := c.dropWhile isBlank
    let c := if c.isAt '#' then c.dropLine else c
    if c.atLineEnd then return (lexeme, c.dropBreak) else .error (c.fault origin .directiveEnd)

end Blockwork.Yaml
