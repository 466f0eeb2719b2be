import Blockwork.Markup.Yaml.Input
import Blockwork.Markup.Yaml.Token

/-!
# Cutting a document into tokens

The lexer goes through the characters once and only ever adds tokens. Two things are not local.
Indentation opens and closes block collections: the columns of the open ones are a stack. And a
mapping key need not be announced: when a colon follows something that may be a key, the marks for
the key, and for the mapping if it is new, are put before what has been read already. What may be a
key is kept for each level of flow collections, and it is given up when the line ends or 1024
characters have passed.
-/

namespace Blockwork.Yaml

/-- A token that turns out to be a mapping key if a colon follows in time. -/
structure Candidate where
  /-- Nothing else can stand here. -/
  required : Bool
  /-- The number of tokens before it. -/
  number : Nat
  place : Cursor

/-- The state between two tokens. -/
structure Lexer where
  cursor : Cursor
  /-- The tokens so far, the last one first. -/
  tokens : List Token
  count : Nat
  /-- The columns of the open block collections, the innermost first. -/
  indents : List Nat
  /-- The candidate of each level of flow collections, the innermost first; the last is that of the
  block context. -/
  candidates : List (Option Candidate)
  /-- A key may begin at the cursor. -/
  keyAllowed : Bool

namespace Lexer

/-- The deepest nesting of collections. -/
def maxDepth : Nat := 10000

/-- The beginning of a document. -/
def start (cs : List Char) : Lexer := ⟨.start cs, [], 0, [], [none], true⟩

/-- Inside a flow collection. -/
def inFlow (l : Lexer) : Bool := 1 < l.candidates.length

/-- The candidate of the present level. -/
def candidate? (l : Lexer) : Option Candidate := l.candidates.head?.join

/-- Replaces the candidate of the present level. -/
def withCandidate (l : Lexer) (k : Option Candidate) : Lexer :=
  { l with candidates := k :: l.candidates.drop 1 }

/-- Adds a token at the end. -/
def emit (l : Lexer) (lexeme : Lexeme) (place : Cursor) : Lexer :=
  { l with tokens := ⟨lexeme, place.line⟩ :: l.tokens, count := l.count + 1 }

/-- Puts a token before all but the first `number` tokens. -/
def insert (l : Lexer) (number : Nat) (lexeme : Lexeme) (place : Cursor) : Lexer :=
  let later := l.count - number
  { l with
    tokens := l.tokens.take later ++ ⟨lexeme, place.line⟩ :: l.tokens.drop later
    count := l.count + 1 }

/-- The fault of a problem at the cursor. -/
def refuse {α : Type} (l : Lexer) (p : Problem) : Except Fault α :=
  .error (l.cursor.fault l.cursor p)

/-! ### Indentation -/

/-- Closes the block collections that are indented beyond a column; `none` is left of all. -/
def unroll (l : Lexer) (column : Option Nat) (place : Cursor) : Lexer :=
  if l.inFlow then l
  else
    let closed := l.indents.takeWhile fun i => match column with
      | some n => n < i
      | none => true
    let l := closed.foldl (fun l _ => l.emit .blockEnd place) l
    { l with indents := l.indents.drop closed.length }

/-- Opens a block collection at a column, unless one is open there, with its mark before all but
the first `number` tokens. -/
def roll (l : Lexer) (column number : Nat) (lexeme : Lexeme) (place : Cursor) :
    Except Fault Lexer :=
  let isNew := !l.inFlow && (match l.indents.head? with
    | some i => i < column
    | none => true)
  if !isNew then .ok l
  else if maxDepth ≤ l.indents.length then .error (l.cursor.fault place .tooDeep)
  else .ok { l.insert number lexeme place with indents := column :: l.indents }

/-! ### Candidates -/

/-- Gives the candidate of the present level up. -/
def dropCandidate (l : Lexer) : Except Fault Lexer :=
  match l.candidate? with
  | some k =>
    if k.required then .error (l.cursor.fault k.place .missingColon) else .ok (l.withCandidate none)
  | none => .ok l

/-- Makes what begins at the cursor the candidate, where keys may begin. -/
def saveCandidate (l : Lexer) : Except Fault Lexer :=
  if l.keyAllowed then do
    let l ← l.dropCandidate
    let required := !l.inFlow && l.indents.head? == some l.cursor.column
    return l.withCandidate (some ⟨required, l.count, l.cursor⟩)
  else .ok l

/-- The candidate if a colon at the cursor is in time for it. -/
def validCandidate (l : Lexer) : Except Fault (Option Candidate) :=
  match l.candidate? with
  | some k =>
    if k.place.line < l.cursor.line || k.place.index + 1024 < l.cursor.index then
      if k.required then .error (l.cursor.fault k.place .missingColon) else .ok none
    else .ok (some k)
  | none => .ok none

/-! ### Comments and blanks -/

/-- How far a comment is looked for. -/
def commentReach : Nat := 512

/-- The distance to a further comment after the end of the line at the cursor, over blanks and empty
lines. -/
def commentAhead? (c : Cursor) : Option Nat :=
  match c.rest with
  | x :: rest =>
    if x == '\n' || x == '\r' then
      let gap := rest.takeWhile fun y => isBlank y || y == '\n' || y == '\r'
      if rest[gap.length]? == some '#' && gap.length + 1 < commentReach then some (gap.length + 1)
      else none
    else none
  | [] => none

/-- Steps over one character, or over a line break. -/
def passOne (c : Cursor) : Cursor := if c.peek?.any isBreak then c.dropBreak else c.advance

/-- Steps over `n` characters, among them line breaks. -/
def passBy : Nat → Cursor → Cursor
  | 0, c => c
  | 1, c => passOne c
  | n + 2, c =>
    match c.rest with
    | '\r' :: '\n' :: _ => passBy n c.dropBreak
    | _ => passBy (n + 1) (passOne c)

/-- Steps over a comment and over the comments that follow it. -/
def dropComments : (fuel : Nat) → Cursor → Cursor
  | 0, c => c
  | fuel + 1, c =>
    let c := c.dropLine
    match commentAhead? c with
    | some n => dropComments fuel (passBy n c)
    | none => c

/-- Steps to the next token. Blanks are spaces, and tabs where no key may begin. -/
def toNext : (fuel : Nat) → Lexer → Lexer
  | 0, l => l
  | fuel + 1, l =>
    let c := l.cursor
    let c := if c.column == 0 && c.isAt '\ufeff' then c.advance else c
    let tabs := l.inFlow || !l.keyAllowed
    let c := c.dropWhile fun x => x == ' ' || (tabs && x == '\t')
    let c := if c.isAt '#' then dropComments c.rest.length c else c
    if c.peek?.any isBreak then
      toNext fuel { l with cursor := c.dropBreak, keyAllowed := l.keyAllowed || !l.inFlow }
    else { l with cursor := c }

/-- Steps over a comment that follows a token on its line. -/
def dropLineComment (l : Lexer) : Lexer :=
  let blanks := (l.cursor.rest.takeWhile isBlank).length
  if !l.cursor.fresh && blanks < commentReach && l.cursor.peekAt? blanks == some '#' then
    { l with cursor := l.cursor.dropLine }
  else l

/-! ### Tokens -/

/-- The end of the document. -/
def fetchEnd (l : Lexer) : Except Fault Lexer := do
  let c := l.cursor
  -- the end counts as the beginning of a line
  let c := if c.column = 0 then c else { c with column := 0, line := c.line + 1 }
  let l ← ({ l with cursor := c }.unroll none c).dropCandidate
  return { l with keyAllowed := false }.emit .streamEnd c

/-- A directive. -/
def fetchDirective (l : Lexer) : Except Fault Lexer := do
  let l ← (l.unroll none l.cursor).dropCandidate
  let (lexeme, c) ← takeDirective l.cursor
  return { l.emit lexeme l.cursor with cursor := c, keyAllowed := false }

/-- The mark of the start or the end of a document. -/
def fetchIndicator (l : Lexer) (lexeme : Lexeme) : Except Fault Lexer := do
  let l ← (l.unroll none l.cursor).dropCandidate
  return { l.emit lexeme l.cursor with cursor := l.cursor.advanceBy 3, keyAllowed := false }

/-- The start of a flow collection. -/
def fetchFlowStart (l : Lexer) (lexeme : Lexeme) : Except Fault Lexer := do
  let l ← l.saveCandidate
  if maxDepth < l.candidates.length then .error (l.cursor.fault l.cursor .tooDeep)
  else
    return { l.emit lexeme l.cursor with
      candidates := none :: l.candidates, cursor := l.cursor.advance, keyAllowed := true }

/-- The end of a flow collection. -/
def fetchFlowEnd (l : Lexer) (lexeme : Lexeme) : Except Fault Lexer := do
  let l ← l.dropCandidate
  return { l.emit lexeme l.cursor with
    candidates := if l.inFlow then l.candidates.drop 1 else l.candidates
    cursor := l.cursor.advance
    keyAllowed := false }

/-- The comma of a flow collection. -/
def fetchFlowEntry (l : Lexer) : Except Fault Lexer := do
  let l ← l.dropCandidate
  return { l.emit .flowEntry l.cursor with cursor := l.cursor.advance, keyAllowed := true }

/-- The hyphen of a block sequence. -/
def fetchBlockEntry (l : Lexer) : Except Fault Lexer := do
  if !l.inFlow && !l.keyAllowed then l.refuse .entryPlace
  else
    let l ← l.roll l.cursor.column l.count .blockSequenceStart l.cursor
    let l ← l.dropCandidate
    return { l.emit .blockEntry l.cursor with cursor := l.cursor.advance, keyAllowed := true }

/-- The question mark before a key. -/
def fetchKey (l : Lexer) : Except Fault Lexer := do
  if !l.inFlow && !l.keyAllowed then l.refuse .keyPlace
  else
    let l ← l.roll l.cursor.column l.count .blockMappingStart l.cursor
    let l ← l.dropCandidate
    return { l.emit .key l.cursor with cursor := l.cursor.advance, keyAllowed := !l.inFlow }

/-- The colon before a value: it makes the candidate a key, or follows an announced key. -/
def fetchValue (l : Lexer) : Except Fault Lexer := do
  let l ← match ← l.validCandidate with
    | some k => do
      -- the mark of the key goes back to where the candidate began
      let l ← (l.insert k.number .key k.place).roll k.place.column k.number .blockMappingStart
        k.place
      pure { l.withCandidate none with keyAllowed := false }
    | none => do
      if !l.inFlow && !l.keyAllowed then l.refuse .valuePlace
      else
        let l ← l.roll l.cursor.column l.count .blockMappingStart l.cursor
        pure { l.withCandidate none with keyAllowed := !l.inFlow }
  return { l.emit .value l.cursor with cursor := l.cursor.advance }

/-- An anchor or a reference. -/
def fetchAnchor (l : Lexer) (make : String → Lexeme) : Except Fault Lexer := do
  let l ← l.saveCandidate
  let (name, c) ← takeAnchor l.cursor
  return { l.emit (make name) l.cursor with cursor := c, keyAllowed := false }

/-- A tag. -/
def fetchTag (l : Lexer) : Except Fault Lexer := do
  let l ← l.saveCandidate
  let (lexeme, c) ← takeTag l.cursor
  return { l.emit lexeme l.cursor with cursor := c, keyAllowed := false }

/-- A block scalar. -/
def fetchBlock (l : Lexer) (literal : Bool) : Except Fault Lexer := do
  let l ← l.dropCandidate
  let (text, c) ← takeBlock literal l.indents.head? l.cursor
  return { l.emit (.scalar false (String.ofList text)) l.cursor with
    cursor := c, keyAllowed := true }

/-- A quoted scalar. -/
def fetchQuoted (l : Lexer) (single : Bool) : Except Fault Lexer := do
  let l ← l.saveCandidate
  let first := l.cursor.advance
  let (text, c) ← takeQuoted single l.cursor (first.rest.length + 1) [] first
  return { l.emit (.scalar false (String.ofList text)) l.cursor with
    cursor := c, keyAllowed := false }

/-- A plain scalar. -/
def fetchPlain (l : Lexer) : Except Fault Lexer := do
  let l ← l.saveCandidate
  let indent := match l.indents.head? with
    | some i => i + 1
    | none => 0
  let (text, broken, c) ← takePlain l.inFlow indent l.cursor (l.cursor.rest.length + 1) []
    (.blanks []) l.cursor
  return { l.emit (.scalar true (String.ofList text)) l.cursor with
    cursor := c, keyAllowed := broken }

/-- The characters that begin no plain scalar, whatever follows them. -/
def isIndicator (x : Char) : Bool :=
  [',', '[', ']', '{', '}', '#', '&', '*', '!', '|', '>', '\'', '"', '%', '@', '\x60'].contains x

/-- The token that begins at the cursor with the character `x`. -/
def fetchContent (l : Lexer) (x : Char) : Except Fault Lexer :=
  let c := l.cursor
  let alone := c.endsAt 1 isGap
  if x == '[' then l.fetchFlowStart .flowSequenceStart
  else if x == '{' then l.fetchFlowStart .flowMappingStart
  else if x == ']' then l.fetchFlowEnd .flowSequenceEnd
  else if x == '}' then l.fetchFlowEnd .flowMappingEnd
  else if x == ',' then l.fetchFlowEntry
  else if x == '-' && alone then l.fetchBlockEntry
  else if x == '?' && (l.inFlow || alone) then l.fetchKey
  else if x == ':' && (l.inFlow || alone) then l.fetchValue
  else if x == '*' then l.fetchAnchor .reference
  else if x == '&' then l.fetchAnchor .anchor
  else if x == '!' then l.fetchTag
  else if x == '|' && !l.inFlow then l.fetchBlock true
  else if x == '>' && !l.inFlow then l.fetchBlock false
  else if x == '\'' then l.fetchQuoted true
  else if x == '"' then l.fetchQuoted false
  else if isIndicator x || isBlank x then l.refuse .noToken
  else l.fetchPlain

/-- The last token is the hyphen of a block sequence. -/
def endsWithEntry (l : Lexer) : Bool :=
  match l.tokens with
  | t :: _ => t.lexeme == .blockEntry
  | [] => false

/-- Reads the next token, and with it the marks that come before it. -/
def next (l : Lexer) : Except Fault Lexer :=
  let before := l.cursor
  let l := l.toNext (l.cursor.rest.length + 1)
  let l := l.unroll (some l.cursor.column) before
  match l.cursor.peek? with
  | none => l.fetchEnd
  | some x =>
    if x == '%' && l.cursor.column == 0 then l.fetchDirective
    else if l.cursor.atIndicator '-' then l.fetchIndicator .documentStart
    else if l.cursor.atIndicator '.' then l.fetchIndicator .documentEnd
    else
      match l.fetchContent x with
      | .ok l => .ok (if l.endsWithEntry then l else l.dropLineComment)
      | .error e => .error e

/-- The document has been read to its end. -/
def isDone (l : Lexer) : Bool :=
  match l.tokens with
  | t :: _ => t.lexeme == .streamEnd
  | [] => false

end Lexer

/-- The tokens of a document, up to its end or to the first fault. -/
structure Tokens where
  list : List Token
  fault : Option Fault

namespace Tokens

/-- Reads tokens to the end. Where the characters stop short of the end of the bytes, the problem
with the bytes is met as soon as fewer than four characters are left. -/
def readFrom (problem : Option Problem) : (fuel : Nat) → Lexer → Tokens
  | 0, l => ⟨l.tokens.reverse, none⟩
  | fuel + 1, l =>
    match l.next, problem with
    | .error _, some p => ⟨l.tokens.reverse, some (.malformed p 0)⟩
    | .error e, none => ⟨l.tokens.reverse, some e⟩
    | .ok next, some p =>
      if (next.cursor.rest.drop 3).isEmpty then ⟨l.tokens.reverse, some (.malformed p 0)⟩
      else readFrom problem fuel next
    | .ok next, none =>
      if next.isDone then ⟨next.tokens.reverse, none⟩ else readFrom problem fuel next

/-- The tokens of an input. -/
def ofInput (input : Input) : Tokens :=
  readFrom input.problem (input.chars.length + 1) (.start input.chars)

end Tokens

end Blockwork.Yaml
