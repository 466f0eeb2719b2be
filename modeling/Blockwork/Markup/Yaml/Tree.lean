import Blockwork.Markup.Yaml.Kind
import Blockwork.Markup.Yaml.Lexer

/-!
# The content of a YAML document

Tokens are composed into scalars, sequences and mappings. A node with an anchor takes a slot of
the document, and a reference leads to a slot, so that a node may be used many times and may even
contain a reference to itself. Only the first document of a text is composed; what follows its end
is not looked at.

A token is given out only when two more are known after it, or the end: a fault in the characters
is met that much earlier.
-/

namespace Blockwork.Yaml

/-- A node. -/
inductive Tree where
  | scalar (tag text : String)
  | sequence (tag : String) (items : List Tree)
  | mapping (tag : String) (entries : List (Tree × Tree))
  /-- The `id`-th reference of the document: its name, and the slot that it leads to. -/
  | reference (name : String) (slot id : Nat)
deriving Inhabited

/-- A document: its root, and the nodes of its slots. -/
structure Document where
  root : Tree
  slots : List Tree

/-! ### Tags -/

/-- The text before the short name of a standard tag. -/
def standardBase : String := "tag:yaml.org,2002:"

/-- A tag with the standard text before it shortened to two marks. -/
def shortTag (tag : String) : String :=
  let base := standardBase.toList
  let cs := tag.toList
  if base.isPrefixOf cs then "!!" ++ String.ofList (cs.drop base.length) else tag

/-- The node of a scalar: without a tag of its own, a text in quotes is a text, two angle brackets
are a merge key, and all else is what it stands for. -/
def Tree.ofScalar (tag : Option String) (plain : Bool) (text : String) : Tree :=
  match tag with
  | some t => .scalar (shortTag t) text
  | none =>
    if !plain then .scalar "!!str" text
    else if text == "<<" then .scalar "!!merge" text
    else .scalar (kindOf true text).tag text

/-- The node where there is nothing. -/
def Tree.missing : Tree := .ofScalar none true ""

/-! ### Composing -/

/-- The state between two tokens. -/
structure Composer where
  tokens : List Token
  fault : Option Fault
  /-- The handles of tags and what they stand for. -/
  handles : List (String × String)
  /-- The slots that names are bound to, the latest first. -/
  anchors : List (String × Nat)
  /-- The slots, the last one first; one whose node is not complete yet is empty. -/
  slots : List (Nat × Tree)
  slotCount : Nat
  referenceCount : Nat

/-- A step of composing. -/
abbrev Compose (α : Type) := StateT Composer (Except Fault) α

namespace Compose

/-- The next token. -/
def peek : Compose Token := do
  let s ← get
  match s.tokens, s.fault with
  | t :: _, none => return t
  | t :: rest, some e => if (rest.drop 1).isEmpty then throw e else return t
  | [], some e => throw e
  | [], none => return ⟨.streamEnd, 0⟩

/-- Takes the next token away. -/
def skip : Compose Unit := modify fun s => { s with tokens := s.tokens.drop 1 }

/-- Stops with a problem at a token, in something that began on the line `origin`. -/
def refuse {α : Type} (p : Problem) (t : Token) (origin : Nat) : Compose α :=
  throw (.malformed p (if origin ≠ 0 then origin else t.line))

/-- Binds a name to a new slot. -/
def bindAnchor (name : String) : Compose Nat := do
  let s ← get
  set { s with anchors := (name, s.slotCount) :: s.anchors, slotCount := s.slotCount + 1 }
  return s.slotCount

/-- Puts a node into its slot, if it has one. -/
def complete (slot : Option Nat) (t : Tree) : Compose Tree := do
  match slot with
  | some n => modify fun s => { s with slots := (n, t) :: s.slots }
  | none => pure ()
  return t

/-- The node of a reference. -/
def refer (name : String) : Compose Tree := do
  let s ← get
  match s.anchors.find? (·.1 == name) with
  | none => throw (.unknownAnchor name)
  | some (_, slot) =>
    set { s with referenceCount := s.referenceCount + 1 }
    return .reference name slot s.referenceCount

/-- The anchor and the tag before a node, in either order. -/
def properties : Compose (Option String × Option (Token × String × String)) := do
  let t ← peek
  match t.lexeme with
  | .anchor name => do
    skip
    let t ← peek
    match t.lexeme with
    | .tag handle suffix => do
      skip
      return (some name, some (t, handle, suffix))
    | _ => return (some name, none)
  | .tag handle suffix => do
    skip
    let next ← peek
    match next.lexeme with
    | .anchor name => do
      skip
      return (some name, some (t, handle, suffix))
    | _ => return (none, some (t, handle, suffix))
  | _ => return (none, none)

/-- The full text of a tag. The tag `!` says no more than no tag at all. -/
def fullTag (origin : Nat) : Option (Token × String × String) → Compose (Option String)
  | none => return none
  | some (t, handle, suffix) => do
    let s ← get
    let full ←
      if handle == "" then pure suffix
      else match s.handles.find? (·.1 == handle) with
        | some (_, base) => pure (base ++ suffix)
        | none => refuse .unknownHandle t origin
    return some full

/-- What is left of a tag for the choice of a kind. -/
def effectiveTag (tag : Option String) : Option String := tag.filter fun t => t != "" && t != "!"

/-- A node with an anchor or a tag and nothing else. -/
def emptyNode (first t : Token) (anchor tag : Option String) : Compose Tree := do
  if anchor.isSome || tag.isSome then
    let slot ← match anchor with
      | some name => some <$> bindAnchor name
      | none => pure none
    complete slot (.ofScalar (effectiveTag tag) true "")
  else refuse .nodeContent t first.line

mutual

/-- A node. Block collections stand only where `block` says so, and a block sequence that is not
indented only where `indentless` does. -/
def node (block indentless : Bool) : (fuel : Nat) → Compose Tree
  | 0 => return .missing
  | fuel + 1 => do
    let first ← peek
    if let .reference name := first.lexeme then
      let t ← refer name
      skip
      return t
    let (anchor, tagged) ← properties
    let tag ← fullTag first.line tagged
    let t ← peek
    let kept := effectiveTag tag
    let named (fallback : String) : String := (kept.map shortTag).getD fallback
    -- an anchor is bound before the content is read, which may refer to it
    let bound : Compose (Option Nat) :=
      match anchor with
      | some name => some <$> bindAnchor name
      | none => pure none
    match t.lexeme with
    | .blockEntry =>
      -- these items stand at the column of the key that they belong to
      if indentless then
        let slot ← bound
        complete slot (.sequence (named "!!seq") (← indentlessItems fuel))
      else emptyNode first t anchor tag
    | .scalar plain text => do
      let slot ← bound
      skip
      complete slot (.ofScalar kept plain text)
    | .flowSequenceStart => do
      let slot ← bound
      skip
      complete slot (.sequence (named "!!seq") (← flowItems t.line true fuel))
    | .flowMappingStart => do
      let slot ← bound
      skip
      complete slot (.mapping (named "!!map") (← flowEntries t.line true fuel))
    | .blockSequenceStart =>
      if block then
        let slot ← bound
        skip
        complete slot (.sequence (named "!!seq") (← blockItems t.line fuel))
      else emptyNode first t anchor tag
    | .blockMappingStart =>
      if block then
        let slot ← bound
        skip
        complete slot (.mapping (named "!!map") (← blockEntries t.line fuel))
      else emptyNode first t anchor tag
    | _ => emptyNode first t anchor tag
termination_by structural fuel => fuel

/-- The items of an indented block sequence. -/
def blockItems (origin : Nat) : (fuel : Nat) → Compose (List Tree)
  | 0 => return []
  | fuel + 1 => do
    let t ← peek
    match t.lexeme with
    | .blockEntry => do
      skip
      let next ← peek
      let item ← match next.lexeme with
        | .blockEntry | .blockEnd => pure Tree.missing
        | _ => node true false fuel
      return item :: (← blockItems origin fuel)
    | .blockEnd => do
      skip
      return []
    | _ => refuse .dash t origin
termination_by structural fuel => fuel

/-- The items of a block sequence at the column of the mapping around it. -/
def indentlessItems : (fuel : Nat) → Compose (List Tree)
  | 0 => return []
  | fuel + 1 => do
    let t ← peek
    match t.lexeme with
    | .blockEntry => do
      skip
      let next ← peek
      let item ← match next.lexeme with
        | .blockEntry | .key | .value | .blockEnd => pure Tree.missing
        | _ => node true false fuel
      return item :: (← indentlessItems fuel)
    | _ => return []
termination_by structural fuel => fuel

/-- The key or the value after its mark in a block mapping. -/
def blockSide : (fuel : Nat) → Compose Tree
  | 0 => return .missing
  | fuel + 1 => do
    let t ← peek
    match t.lexeme with
    | .key | .value | .blockEnd => return .missing
    | _ => node true true fuel
termination_by structural fuel => fuel

/-- The entries of a block mapping. -/
def blockEntries (origin : Nat) : (fuel : Nat) → Compose (List (Tree × Tree))
  | 0 => return []
  | fuel + 1 => do
    let t ← peek
    match t.lexeme with
    | .key => do
      skip
      let key ← blockSide fuel
      let next ← peek
      let value ← match next.lexeme with
        | .value => do
          skip
          blockSide fuel
        | _ => pure Tree.missing
      return (key, value) :: (← blockEntries origin fuel)
    | .blockEnd => do
      skip
      return []
    | _ => refuse .blockKey t origin
termination_by structural fuel => fuel

/-- The items of a flow sequence. An item after a key mark is a mapping of one entry. -/
def flowItems (origin : Nat) (first : Bool) : (fuel : Nat) → Compose (List Tree)
  | 0 => return []
  | fuel + 1 => do
    let t ← peek
    if t.lexeme = .flowSequenceEnd then
      skip
      return []
    if !first then
      if t.lexeme = .flowEntry then skip else refuse .flowSequenceEnd t origin
    let t ← peek
    match t.lexeme with
    | .flowSequenceEnd => do
      skip
      return []
    | .key => do
      skip
      let entry ← singleEntry fuel
      return .mapping "!!map" [entry] :: (← flowItems origin false fuel)
    | _ => do
      let item ← node false false fuel
      return item :: (← flowItems origin false fuel)
termination_by structural fuel => fuel

/-- The entry of a mapping without brackets in a flow sequence. A missing key takes the mark after
it away. -/
def singleEntry : (fuel : Nat) → Compose (Tree × Tree)
  | 0 => return (.missing, .missing)
  | fuel + 1 => do
    let t ← peek
    let key ← match t.lexeme with
      | .value | .flowEntry | .flowSequenceEnd => do
        skip
        pure Tree.missing
      | _ => node false false fuel
    let t ← peek
    match t.lexeme with
    | .value => do
      skip
      let next ← peek
      match next.lexeme with
      | .flowEntry | .flowSequenceEnd => return (key, .missing)
      | _ => return (key, ← node false false fuel)
    | _ => return (key, .missing)
termination_by structural fuel => fuel

/-- The entries of a flow mapping. -/
def flowEntries (origin : Nat) (first : Bool) : (fuel : Nat) → Compose (List (Tree × Tree))
  | 0 => return []
  | fuel + 1 => do
    let t ← peek
    if t.lexeme = .flowMappingEnd then
      skip
      return []
    if !first then
      if t.lexeme = .flowEntry then skip else refuse .flowMappingEnd t origin
    let t ← peek
    match t.lexeme with
    | .flowMappingEnd => do
      skip
      return []
    | .key => do
      skip
      let next ← peek
      let key ← match next.lexeme with
        | .value | .flowEntry | .flowMappingEnd => pure Tree.missing
        | _ => node false false fuel
      let value ← flowValue fuel
      return (key, value) :: (← flowEntries origin false fuel)
    | _ => do
      -- without its mark a key has no value
      let key ← node false false fuel
      let _ ← peek
      return (key, .missing) :: (← flowEntries origin false fuel)
termination_by structural fuel => fuel

/-- The value after a key in a flow mapping. -/
def flowValue : (fuel : Nat) → Compose Tree
  | 0 => return .missing
  | fuel + 1 => do
    let t ← peek
    match t.lexeme with
    | .value => do
      skip
      let next ← peek
      match next.lexeme with
      | .flowEntry | .flowMappingEnd => return .missing
      | _ => node false false fuel
    | _ => return .missing
termination_by structural fuel => fuel

end

/-- The handles that every document has. -/
def standardHandles : List (String × String) := [("!", "!"), ("!!", standardBase)]

/-- Reads the directives before a document. -/
def directives (versioned : Bool) : (fuel : Nat) → Compose Unit
  | 0 => return ()
  | fuel + 1 => do
    let t ← peek
    match t.lexeme with
    | .version major minor => do
      if versioned then refuse .duplicateVersion t 0
      if major ≠ 1 ∨ minor ≠ 1 then refuse .incompatibleVersion t 0
      skip
      directives true fuel
    | .handle name base => do
      let s ← get
      if s.handles.any (·.1 == name) then refuse .duplicateHandle t 0
      set { s with handles := s.handles ++ [(name, base)] }
      skip
      directives versioned fuel
    | _ => modify fun s => { s with handles := s.handles ++ standardHandles }

/-- The root of the first document, if there is a document. -/
def firstRoot (fuel : Nat) : Compose (Option Tree) := do
  let t ← peek
  match t.lexeme with
  | .streamEnd => return none
  | .version .. | .handle .. | .documentStart => do
    directives false fuel
    let t ← peek
    if t.lexeme ≠ .documentStart then refuse .documentStart t 0
    skip
    let t ← peek
    let root ← match t.lexeme with
      | .version .. | .handle .. | .documentStart | .documentEnd | .streamEnd => pure Tree.missing
      | _ => node true false fuel
    let _ ← peek
    return some root
  | _ => do
    -- the mark of the start may be left out, and then there are no directives
    directives false fuel
    let root ← node true false fuel
    let _ ← peek
    return some root

end Compose

/-- The node of a slot. -/
def slotOf (slots : List (Nat × Tree)) (n : Nat) : Tree :=
  ((slots.find? (·.1 == n)).map (·.2)).getD .missing

/-- The first document of a sequence of tokens. -/
def Document.ofTokens (ts : Tokens) : Except Fault Document := do
  let fuel := 4 * ts.list.length + 8
  let start : Composer := ⟨ts.list, ts.fault, [], [], [], 0, 0⟩
  let (root, s) ← (Compose.firstRoot fuel).run start
  match root with
  | some root => return ⟨root, (List.range s.slotCount).map (slotOf s.slots)⟩
  | none => throw .noDocument

end Blockwork.Yaml
