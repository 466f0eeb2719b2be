import Blockwork.Markup.Xml.Name
import Blockwork.Text.Quoted

/-!
# The tokens of an XML document

What a document is cut into: start tags with their attributes, end tags, character data, and the
rest (comments, instructions and declarations), which nothing is kept of. An empty-element tag is
a start tag with its end tag. Character data has its references replaced and its line ends made
uniform.
-/

namespace Blockwork.Xml

/-- One token. -/
inductive Token where
  | start (name : Name) (attributes : List (Name × String))
  | stop (name : Name)
  | text (s : String)
  /-- A comment, an instruction or a declaration. -/
  | other
deriving DecidableEq, Inhabited

/-- What breaks the rules of XML. -/
inductive Breach where
  | unexpectedEnd
  | elementName
  | closingName
  | closingTail
  | instructionName
  | invalidName
  | commentStart
  | doubleHyphen
  | sectionStart
  | sectionEnd
  | emptyTag
  | attributeName
  | attributeEquals
  | attributeQuote
  | attributeAngle
  | reference
  | invalidBytes
  | illegalCharacter
  | unopened
  | mismatch (opened closed : Name)
deriving DecidableEq, Inhabited

namespace Breach

/-- What a breach is, in words. -/
def message : Breach → String
  | unexpectedEnd => "unexpected EOF"
  | elementName => "expected element name after <"
  | closingName => "expected element name after </"
  | closingTail => "invalid characters between </ and >"
  | instructionName => "expected target name after <?"
  | invalidName => "invalid XML name"
  | commentStart => "invalid sequence <!- not part of <!--"
  | doubleHyphen => "invalid sequence \"--\" not allowed in comments"
  | sectionStart => "invalid <![ sequence"
  | sectionEnd => "unescaped ]]> not in CDATA section"
  | emptyTag => "expected /> in element"
  | attributeName => "expected attribute name in element"
  | attributeEquals => "attribute name without = in element"
  | attributeQuote => "unquoted or missing attribute value in element"
  | attributeAngle => "unescaped < inside quoted string"
  | reference => "invalid character entity"
  | invalidBytes => "invalid UTF-8"
  | illegalCharacter => "illegal character code"
  | unopened => "unexpected end element"
  | mismatch opened closed => "element <" ++ opened.label ++ "> closed by </" ++ closed.label ++ ">"

end Breach

/-- Why a text is no XML document that can be read. -/
inductive Fault where
  | syntaxError (breach : Breach)
  /-- A declared version other than 1.0. -/
  | version (declared : String)
  /-- A declared encoding other than UTF-8. -/
  | encoding (declared : String)
  /-- A second root element. -/
  | secondRoot (label : String)
  /-- No root element. -/
  | noRoot
deriving DecidableEq, Inhabited

/-- The tokens of a text up to its end or to the first fault. -/
structure Tokens where
  list : List Token
  fault : Option Fault

/-! ### Characters and names -/

/-- A character that a document may hold. -/
def isAllowed (c : Char) : Bool :=
  let n := c.toNat
  n == 9 || n == 10 || n == 13 || (0x20 ≤ n && n < 0xd800) || (0xe000 ≤ n && n < 0xfffe) ||
    0x10000 ≤ n

/-- A byte of a name, as far as one byte can tell. -/
def isNameByte (b : UInt8) : Bool :=
  0x80 ≤ b || (0x41 ≤ b && b ≤ 0x5a) || (0x61 ≤ b && b ≤ 0x7a) || (0x30 ≤ b && b ≤ 0x39) ||
    b == 0x5f || b == 0x3a || b == 0x2e || b == 0x2d

/-- A blank between the parts of a tag. -/
def isGap (b : UInt8) : Bool := b == 0x20 || b == 0x0d || b == 0x0a || b == 0x09

/-- The syntax error of a breach. -/
def broken {α : Type} (b : Breach) : Except Fault α := .error (.syntaxError b)

/-- Reads a name; `missing` is the breach when none begins here. -/
def takeName (missing : Breach) (bs : Text.Bytes) : Except Fault (List Char × Text.Bytes) :=
  let raw := bs.takeWhile isNameByte
  let rest := bs.dropWhile isNameByte
  if bs.isEmpty then broken .unexpectedEnd
  else if raw.isEmpty then broken missing
  else if rest.isEmpty then broken .unexpectedEnd
  else match Text.decode? raw with
    | some cs => if isName cs then .ok (cs, rest) else broken .invalidName
    | none => broken .invalidName

/-- Reads a name and splits it at its colon. -/
def takeSplitName (missing : Breach) (bs : Text.Bytes) : Except Fault (Name × Text.Bytes) := do
  let (cs, rest) ← takeName missing bs
  match Name.split? cs with
  | some name => .ok (name, rest)
  | none => broken missing

/-! ### Character data -/

/-- Where character data stands, which decides how it ends. -/
inductive Place where
  | content
  | cdata
  | quoted (quote : UInt8)
deriving DecidableEq

/-- The five names that stand for characters. -/
def entities : List (String × Char) :=
  [("lt", '<'), ("gt", '>'), ("amp", '&'), ("apos", '\''), ("quot", '"')]

/-- The value of a digit in a base of ten or sixteen. -/
def digitValue? (base : Nat) (b : UInt8) : Option Nat :=
  if 0x30 ≤ b && b ≤ 0x39 then some (b.toNat - 0x30)
  else if base == 16 && 0x61 ≤ b && b ≤ 0x66 then some (b.toNat - 0x57)
  else if base == 16 && 0x41 ≤ b && b ≤ 0x46 then some (b.toNat - 0x37)
  else none

/-- The character of a code point; a surrogate gives the replacement character. -/
def charOfCode? (n : Nat) : Option Char :=
  if 0x10ffff < n then none
  else if 0xd800 ≤ n && n < 0xe000 then some Text.replacement
  else some (Char.ofNat n)

/-- A reference by number, after its mark. -/
def numericReference (base : Nat) (bs : Text.Bytes) : Except Fault (Char × Text.Bytes) :=
  let isDigit (b : UInt8) : Bool := (digitValue? base b).isSome
  let digits := (bs.takeWhile isDigit).filterMap (digitValue? base)
  match bs.dropWhile isDigit with
  | [] => broken .unexpectedEnd
  | b :: rest =>
    if b != 0x3b || digits.isEmpty then broken .reference
    else match charOfCode? (digits.foldl (fun n d => n * base + d) 0) with
      | some c => .ok (c, rest)
      | none => broken .reference

/-- A reference after its ampersand. -/
def reference : Text.Bytes → Except Fault (Char × Text.Bytes)
  | [] => broken .unexpectedEnd
  | 0x23 :: 0x78 :: rest => numericReference 16 rest
  | 0x23 :: rest => numericReference 10 rest
  | bs =>
    match bs.dropWhile isNameByte with
    | [] => broken .unexpectedEnd
    | b :: rest =>
      if b != 0x3b then broken .reference
      else
        let name := String.ofList (Text.decodeLossy (bs.takeWhile isNameByte))
        match entities.find? (·.1 == name) with
        | some (_, c) => .ok (c, rest)
        | none => broken .reference

/-- Reads character data to its end: the bytes, the last one first, and what follows. The two
bytes before are passed along to recognise `]]>` and line ends; a reference hides them. -/
def scanData (place : Place) : (fuel : Nat) → (before last : UInt8) → (read : Text.Bytes) →
    Text.Bytes → Except Fault (Text.Bytes × Text.Bytes)
  | 0, _, _, read, rest => .ok (read, rest)
  | _ + 1, _, _, read, [] =>
    match place with
    | .content => .ok (read, [])
    | _ => broken .unexpectedEnd
  | fuel + 1, before, last, read, b :: rest =>
    if b == 0x3e && before == 0x5d && last == 0x5d && place == .cdata then
      .ok (read.drop 2, rest)
    else if b == 0x3e && before == 0x5d && last == 0x5d && place == .content then
      broken .sectionEnd
    else if b == 0x3c && place == .content then .ok (read, b :: rest)
    else if b == 0x3c && place != .cdata then broken .attributeAngle
    else if place == .quoted b then .ok (read, rest)
    else if b == 0x26 && place != .cdata then
      match reference rest with
      | .error e => .error e
      | .ok (c, rest) =>
        -- a reference separates the bytes before it from those after it
        scanData place fuel 0 0 ((Text.encodeChar c).reverse ++ read) rest
    else if b == 0x0d then scanData place fuel last b (0x0a :: read) rest
    else if b == 0x0a && last == 0x0d then scanData place fuel last b read rest
    else scanData place fuel last b (b :: read) rest

/-- Reads character data to its end as a text of allowed characters. -/
def takeData (place : Place) (bs : Text.Bytes) : Except Fault (String × Text.Bytes) := do
  let (read, rest) ← scanData place (bs.length + 1) 0 0 [] bs
  match Text.decode? read.reverse with
  | none => broken .invalidBytes
  | some cs => if cs.all isAllowed then .ok (String.ofList cs, rest) else broken .illegalCharacter

/-! ### What nothing is kept of -/

/-- Skips a comment to its end; two hyphens stand nowhere else in it. -/
def skipComment : (before last : UInt8) → Text.Bytes → Except Fault Text.Bytes
  | _, _, [] => broken .unexpectedEnd
  | before, last, b :: rest =>
    if before == 0x2d && last == 0x2d then
      if b == 0x3e then .ok rest else broken .doubleHyphen
    else skipComment last b rest

/-- Skips a comment inside a declaration, in which hyphens are free. -/
def skipInnerComment : (before last : UInt8) → Text.Bytes → Text.Bytes
  | _, _, [] => []
  | before, last, b :: rest =>
    if before == 0x2d && last == 0x2d && b == 0x3e then rest else skipInnerComment last b rest

/-- Skips a declaration to its end. Angle brackets nest; quoted ones do not count. -/
def skipDeclaration : (fuel : Nat) → (quote : Option UInt8) → (depth : Nat) → Text.Bytes →
    Except Fault Text.Bytes
  | 0, _, _, _ => broken .unexpectedEnd
  | _ + 1, _, _, [] => broken .unexpectedEnd
  | fuel + 1, some q, depth, b :: rest =>
    skipDeclaration fuel (if b == q then none else some q) depth rest
  | fuel + 1, none, depth, b :: rest =>
    if b == 0x3e then
      if depth = 0 then .ok rest else skipDeclaration fuel none (depth - 1) rest
    else if b == 0x22 || b == 0x27 then skipDeclaration fuel (some b) depth rest
    else if b == 0x3c then
      match rest with
      | 0x21 :: 0x2d :: 0x2d :: rest => skipDeclaration fuel none depth (skipInnerComment 0 0 rest)
      | rest => skipDeclaration fuel none (depth + 1) rest
    else skipDeclaration fuel none depth rest

/-- Reads an instruction to its end: what it holds, the last byte first. -/
def takeInstruction : (last : UInt8) → (read : Text.Bytes) → Text.Bytes →
    Except Fault (Text.Bytes × Text.Bytes)
  | _, _, [] => broken .unexpectedEnd
  | last, read, b :: rest =>
    if last == 0x3f && b == 0x3e then .ok (read.drop 1, rest)
    else takeInstruction b (b :: read) rest

/-- The value of a parameter in the XML declaration: what stands in quotes after the first
mention that quotes follow. The search goes on after a mention that none follow, so the first
`skip` characters are passed over. -/
def parameter? (key : List Char) : (skip : Nat) → List Char → Option String
  | _, [] => none
  | skip + 1, _ :: cs => parameter? key skip cs
  | 0, c :: cs =>
    if key.isPrefixOf (c :: cs) then
      match (c :: cs).drop key.length with
      | q :: value =>
        if q == '"' || q == '\'' then
          if value.contains q then some (String.ofList (value.takeWhile (· != q))) else none
        else parameter? key key.length cs
      | [] => none
    else parameter? key 0 cs

/-- Checks the XML declaration: version 1.0 and UTF-8, where they are given. -/
def checkDeclaration (content : List Char) : Except Fault Unit :=
  let version := (parameter? "version=".toList 0 content).getD ""
  let encoding := (parameter? "encoding=".toList 0 content).getD ""
  if version != "" && version != "1.0" then .error (.version version)
  else if encoding != "" && encoding.map Char.toLower != "utf-8" then .error (.encoding encoding)
  else .ok ()

/-! ### Tags -/

/-- Reads the attributes of a start tag: whether the tag is closed at once, and the attributes,
the last one first. -/
def takeAttributes : (fuel : Nat) → (read : List (Name × String)) → Text.Bytes →
    Except Fault ((Bool × List (Name × String)) × Text.Bytes)
  | 0, _, _ => broken .unexpectedEnd
  | fuel + 1, read, bs =>
    match bs.dropWhile isGap with
    | [] => broken .unexpectedEnd
    | 0x2f :: rest =>
      match rest with
      | [] => broken .unexpectedEnd
      | b :: rest => if b == 0x3e then .ok ((true, read), rest) else broken .emptyTag
    | 0x3e :: rest => .ok ((false, read), rest)
    | bs => do
      let (name, rest) ← takeSplitName .attributeName bs
      match rest.dropWhile isGap with
      | [] => broken .unexpectedEnd
      | b :: rest =>
        if b != 0x3d then broken .attributeEquals
        else match rest.dropWhile isGap with
          | [] => broken .unexpectedEnd
          | q :: rest =>
            if q != 0x22 && q != 0x27 then broken .attributeQuote
            else
              let (value, rest) ← takeData (.quoted q) rest
              takeAttributes fuel ((name, value) :: read) rest

/-- Reads a tag, a comment, a section, an instruction or a declaration, after its first angle
bracket. -/
def takeMarkup : Text.Bytes → Except Fault (List Token × Text.Bytes)
  | [] => broken .unexpectedEnd
  | 0x2f :: rest => do
    let (name, rest) ← takeSplitName .closingName rest
    match rest.dropWhile isGap with
    | [] => broken .unexpectedEnd
    | b :: rest => if b == 0x3e then .ok ([.stop name], rest) else broken .closingTail
  | 0x3f :: rest => do
    let (target, rest) ← takeName .instructionName rest
    let (read, rest) ← takeInstruction 0 [] (rest.dropWhile isGap)
    -- the declaration may stand anywhere, and is checked wherever it stands
    if target == "xml".toList then checkDeclaration (Text.decodeLossy read.reverse)
    .ok ([.other], rest)
  | 0x21 :: rest =>
    match rest with
    | [] => broken .unexpectedEnd
    | 0x2d :: rest =>
      match rest with
      | [] => broken .unexpectedEnd
      | b :: rest =>
        if b != 0x2d then broken .commentStart
        else (skipComment 0 0 rest).map fun rest => ([.other], rest)
    | 0x5b :: rest =>
      match rest with
      | 0x43 :: 0x44 :: 0x41 :: 0x54 :: 0x41 :: 0x5b :: rest => do
        let (s, rest) ← takeData .cdata rest
        .ok ([.text s], rest)
      | _ => broken .sectionStart
    | _ :: rest =>
      (skipDeclaration (rest.length + 1) none 0 rest).map fun rest => ([.other], rest)
  | bs => do
    let (name, rest) ← takeSplitName .elementName bs
    let ((closed, read), rest) ← takeAttributes (rest.length + 1) [] rest
    let start := Token.start name read.reverse
    -- an element without content is opened and closed at once
    .ok (if closed then [start, .stop name] else [start], rest)

/-- Reads the tokens that begin here. -/
def takeTokens : Text.Bytes → Except Fault (List Token × Text.Bytes)
  | 0x3c :: rest => takeMarkup rest
  | bs => do
    let (s, rest) ← takeData .content bs
    .ok ([.text s], rest)

/-- Cuts a text into tokens; every round uses up at least one byte. -/
def tokensWithin : (rounds : Nat) → Text.Bytes → Tokens
  | 0, _ => ⟨[], none⟩
  | _ + 1, [] => ⟨[], none⟩
  | rounds + 1, bs =>
    match takeTokens bs with
    | .error e => ⟨[], some e⟩
    | .ok (ts, rest) =>
      let more := tokensWithin rounds rest
      ⟨ts ++ more.list, more.fault⟩

/-- The tokens of a document. -/
def tokens (bs : Text.Bytes) : Tokens := tokensWithin (bs.length + 1) bs

end Blockwork.Xml
