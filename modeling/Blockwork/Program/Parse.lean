import Blockwork.Markup.Node
import Blockwork.Program.Walk

/-!
# From trees to programs

The grammar of block documents. Parsing a node gives either a result or the first fault that the
reading order meets, and along with either the warnings about what was tolerated. A value slot
whose block is faulty falls back to its shadow; the warnings that the abandoned block had raised
stay.

Looking into an absent node is the one fault from which there is no falling back.
-/

namespace Blockwork

/-- Why a tree is no program. -/
inductive ParseError where
  /-- An absent node was looked into. -/
  | absentNode
  | noRoot
  | noEntry
  | manyEntries (ids : List String)
  | notBlock (tag : String)
  | noType (id : String)
  | manyNext (id : String)
  | emptyNext (id : String)
  | unexpectedChild (tag id : String)
  | noName (tag : String)
  | emptyStatement (name : String)
  | unexpectedMember (tag : String)
  | emptyValue (name : String)
  | emptyShadow (id : String)
  | namelessVariable (id : String)
  | inBlock (id opcode : String) (cause : ParseError)
  | inStatement (name : String) (cause : ParseError)
  | inValue (name : String) (cause : ParseError)
deriving DecidableEq, Inhabited

namespace ParseError

/-- Looking into an absent node ends the reading at once. -/
def isAbsentNode : ParseError → Bool
  | absentNode => true
  | inBlock _ _ cause => cause.isAbsentNode
  | inStatement _ cause => cause.isAbsentNode
  | inValue _ cause => cause.isAbsentNode
  | _ => false

/-- The text of a structural fault. -/
def malformed (detail : String) : String := "malformed document: " ++ detail

/-- The message of a fault, from the outermost place to the cause. -/
def message : ParseError → String
  | absentNode => "absent node"
  | noRoot => malformed "no root element"
  | noEntry => malformed "no entry block"
  | manyEntries ids => malformed (toString ids.length ++ " entry blocks [" ++
      " ".intercalate (ids.map Text.quote) ++ "], want exactly one")
  | notBlock tag => malformed ("expected <block>, found <" ++ tag ++ ">")
  | noType id => malformed ("block " ++ Text.quote id ++ " has no type")
  | manyNext id => malformed ("block " ++ Text.quote id ++ " has more than one <next>")
  | emptyNext id => malformed ("<next> of block " ++ Text.quote id ++ " has no <block>")
  | unexpectedChild tag id =>
    malformed ("unexpected <" ++ tag ++ "> in block " ++ Text.quote id)
  | noName tag => malformed ("<" ++ tag ++ "> has no name")
  | emptyStatement name => malformed ("statement " ++ Text.quote name ++ " has no <block>")
  | unexpectedMember tag => malformed ("unexpected member <" ++ tag ++ ">")
  | emptyValue name => malformed ("value " ++ Text.quote name ++ " has neither block nor shadow")
  | emptyShadow id => malformed ("shadow " ++ Text.quote id ++ " has no <field>")
  | namelessVariable id => malformed ("variable " ++ Text.quote id ++ " has no name")
  | inBlock id opcode cause =>
    "block " ++ Text.quote id ++ " (" ++ opcode ++ "): " ++ cause.message
  | inStatement name cause => "statement " ++ Text.quote name ++ ": " ++ cause.message
  | inValue name cause => "value " ++ Text.quote name ++ ": " ++ cause.message

end ParseError

/-- What a warning is about. -/
inductive Oddity where
  /-- A slot name occurs again; the later member replaces the earlier one. -/
  | duplicateSlot (name : String) (later earlier : MemberKind)
  /-- A value's block was faulty and its shadow was taken. -/
  | blockDropped (value : String) (cause : ParseError)
deriving DecidableEq, Inhabited

/-- Something tolerated while parsing, with the block or shadow at which it was found. -/
structure Warning where
  id : String
  opcode : String
  oddity : Oddity
deriving DecidableEq, Inhabited

namespace Warning

/-- The text of a warning. -/
def message (w : Warning) : String :=
  "block " ++ w.id ++ " (" ++ w.opcode ++ "): " ++
    match w.oddity with
    | .duplicateSlot name later earlier =>
      "duplicate slot " ++ Text.quote name ++ " (" ++ later.name ++ " replaces " ++
        earlier.name ++ ")"
    | .blockDropped value cause =>
      "value " ++ Text.quote value ++ ": block dropped in favour of shadow: " ++ cause.message

end Warning

/-- A block program. -/
structure Document where
  declarations : List Variable
  entry : Chain
  warnings : List Warning

namespace Document

/-- The first variable with a name. -/
def declared? (d : Document) (name : String) : Option Variable :=
  d.declarations.find? (·.name == name)

end Document

/-! ### Results with warnings -/

/-- The result of parsing a part of a tree, with the warnings raised on the way. -/
structure Parsed (α : Type) where
  outcome : Except ParseError α
  warnings : List Warning

namespace Parsed

variable {α β : Type}

/-- A result without warnings. -/
def ok (a : α) : Parsed α := ⟨.ok a, []⟩

/-- A fault. -/
def fail (e : ParseError) : Parsed α := ⟨.error e, []⟩

/-- Goes on with a result; warnings add up, and a fault ends the reading. -/
def andThen (x : Parsed α) (f : α → Parsed β) : Parsed β :=
  match x.outcome with
  | .ok a => ⟨(f a).outcome, x.warnings ++ (f a).warnings⟩
  | .error e => ⟨.error e, x.warnings⟩

/-- Says where a fault was met. -/
def within (place : ParseError → ParseError) (x : Parsed α) : Parsed α :=
  match x.outcome with
  | .ok _ => x
  | .error e => ⟨.error (place e), x.warnings⟩

/-- Raises a warning in front of a result. -/
def warned (w : Warning) (x : Parsed α) : Parsed α := ⟨x.outcome, w :: x.warnings⟩

instance : Monad Parsed where
  pure := ok
  bind := andThen

end Parsed

/-! ### Fields, shadows and variables -/

namespace Node

/-- An attribute, empty when it is missing. -/
def attr (attributes : List (String × String)) (name : String) : String :=
  (lookup? attributes name).getD ""

/-- The tag of an element. -/
def tag? : Node → Option String
  | .absent => none
  | .element tag _ _ _ => some tag

/-- An attribute of a node, empty when it is missing. -/
def attrOf (n : Node) (name : String) : String :=
  match n with
  | .absent => ""
  | .element _ attributes _ _ => attr attributes name

/-- The field that an element writes. -/
def toField (attributes : List (String × String)) (body : String) : Field where
  name := attr attributes "name"
  id := attr attributes "id"
  value := visibleText body
  variableType := attr attributes "variabletype"

/-- The first child with a tag. -/
def firstChild? (tag : String) : List Node → Except ParseError (Option Node)
  | [] => .ok none
  | .absent :: _ => .error .absentNode
  | .element t attributes body children :: rest =>
    if t == tag then .ok (some (.element t attributes body children)) else firstChild? tag rest

/-- The shadow that an element writes: its first field is the literal. -/
def toShadow (attributes : List (String × String)) (children : List Node) :
    Except ParseError Shadow :=
  match firstChild? "field" children with
  | .error e => .error e
  | .ok (some (.element _ fieldAttributes body _)) =>
    .ok ⟨attr attributes "type", attr attributes "id", toField fieldAttributes body⟩
  | .ok _ => .error (.emptyShadow (attr attributes "id"))

/-- The name that a variable element declares: its name attribute or else its text, trimmed. -/
def variableName (attributes : List (String × String)) (body : String) : String :=
  if attr attributes "name" = "" then Text.trim (visibleText body)
  else attr attributes "name"

/-- The variables that the children of a `variables` element declare. -/
def toVariables : List Node → Except ParseError (List Variable)
  | [] => .ok []
  | .absent :: _ => .error .absentNode
  | .element tag attributes body _ :: rest =>
    if tag == "variable" then
      if variableName attributes body = "" then
        .error (.namelessVariable (attr attributes "id"))
      else do
        let more ← toVariables rest
        .ok (⟨variableName attributes body, attr attributes "type",
          attr attributes "id", attr attributes "islocal" == "true",
          attr attributes "iscloud" == "true"⟩ :: more)
    else toVariables rest

/-! ### Blocks and members -/

/-- Children of a block that only concern an editor. -/
def isDecoration (tag : String) : Bool :=
  tag == "mutation" || tag == "comment" || tag == "data"

/-- Tags of members. -/
def isMemberTag (tag : String) : Bool :=
  tag == "value" || tag == "statement" || tag == "field"

/-- What has been read of a block's children: the members so far, and the chain after it. -/
structure Interior where
  /-- The members, the last one first. -/
  members : List Member := []
  /-- The chain in the `next` element, once one was met. -/
  next : Option (Parsed Chain) := none

/-- The kind of the last member with a name. -/
def lastKind? (members : List Member) (name : String) : Option MemberKind :=
  (members.find? (·.name == name)).map Member.kind

/-- Adds a member, with a warning when its name occurred before. -/
def addMember (opcode id : String) (seen : Interior) (m : Member) : Parsed Interior :=
  let after := Parsed.ok { seen with members := m :: seen.members }
  match lastKind? seen.members m.name with
  | some earlier => after.warned ⟨id, opcode, .duplicateSlot m.name m.kind earlier⟩
  | none => after

/-- The chain after the block, if there is one. -/
def Interior.rest (seen : Interior) : Parsed Chain :=
  match seen.next with
  | some chain => chain
  | none => .ok []

/-- A value slot from its block and its shadow: the block is preferred, and a faulty block gives
way to a good shadow. -/
def chooseContent (name : String) (block : Except ParseError (Option (Parsed Chain)))
    (shadow : Except ParseError (Option Shadow)) : Parsed Member :=
  match block with
  | .error e => .fail e
  | .ok none =>
    match shadow with
    | .ok (some s) => .ok (.literal name s)
    | .ok none => .fail (.emptyValue name)
    | .error e => .fail (.inValue name e)
  | .ok (some ⟨.ok chain, warnings⟩) => ⟨.ok (.expression name chain), warnings⟩
  | .ok (some ⟨.error e, warnings⟩) =>
    -- an absent node breaks the whole reading off, whatever shadow there is
    if e.isAbsentNode then ⟨.error e, warnings⟩
    else match shadow with
      | .ok (some s) =>
        ⟨.ok (.literal name s), warnings ++ [⟨s.id, s.type, .blockDropped name e⟩]⟩
      | .ok none => ⟨.error (.inValue name e), warnings⟩
      | .error f => ⟨.error (.inValue name (if f.isAbsentNode then f else e)), warnings⟩

/-- The first shadow among the children of a value element. -/
def findShadow (children : List Node) : Except ParseError (Option Shadow) :=
  match firstChild? "shadow" children with
  | .error e => .error e
  | .ok (some (.element _ attributes _ inner)) => (toShadow attributes inner).map some
  | .ok _ => .ok none

mutual

/-- A block element with the chain after it. The chain in its `next` element is read after all
its children. -/
def parseChain : Node → Parsed Chain
  | .absent => .fail .absentNode
  | .element tag attributes _ children =>
    if tag != "block" then .fail (.notBlock tag)
    else if attr attributes "type" = "" then .fail (.noType (attr attributes "id"))
    else do
      let opcode := attr attributes "type"
      let id := attr attributes "id"
      let interior ← parseInterior opcode id {} children
      let rest ← interior.rest
      .ok (.mk opcode id interior.members.reverse :: rest)

/-- The children of a block. -/
def parseInterior (opcode id : String) (seen : Interior) : List Node → Parsed Interior
  | [] => .ok seen
  | n :: rest =>
    match n.tag? with
    | none => .fail .absentNode
    | some tag =>
      if isMemberTag tag then do
        let m ← (parseMember n).within (.inBlock id opcode)
        let seen ← addMember opcode id seen m
        parseInterior opcode id seen rest
      else if tag == "next" then
        if seen.next.isSome then .fail (.manyNext id)
        else match firstBlockOf n with
          | .error e => .fail e
          | .ok none => .fail (.emptyNext id)
          | .ok (some chain) => parseInterior opcode id { seen with next := some chain } rest
      else if isDecoration tag then parseInterior opcode id seen rest
      else .fail (.unexpectedChild tag id)

/-- A value, statement or field element. -/
def parseMember : Node → Parsed Member
  | .absent => .fail .absentNode
  | .element tag attributes body children =>
    let name := attr attributes "name"
    if name = "" then .fail (.noName tag)
    else if tag == "value" then
      chooseContent name (firstBlock children) (findShadow children)
    else if tag == "statement" then
      match firstBlock children with
      | .error e => .fail e
      | .ok none => .fail (.emptyStatement name)
      | .ok (some chain) => do
        let body ← chain.within (.inStatement name)
        .ok (.statement name body)
    else if tag == "field" then .ok (.field (toField attributes body))
    else .fail (.unexpectedMember tag)

/-- The first block element among the children of a node. -/
def firstBlockOf : Node → Except ParseError (Option (Parsed Chain))
  | .absent => .error .absentNode
  | .element _ _ _ children => firstBlock children

/-- The first block element among nodes. -/
def firstBlock : List Node → Except ParseError (Option (Parsed Chain))
  | [] => .ok none
  | n :: rest =>
    match n.tag? with
    | none => .error .absentNode
    | some tag => if tag == "block" then .ok (some (parseChain n)) else firstBlock rest

end

/-- A block element with its chain, read on its own. Without a node there is no chain. -/
def parseScript : Node → Except ParseError Chain
  | .absent => .ok []
  | n => (parseChain n).outcome

/-! ### Documents -/

/-- What has been read of the children of the root. -/
structure Outline where
  declarations : List Variable
  /-- The top-level blocks at which a script may start. -/
  candidates : List Node

/-- A top-level block starts a script when its type is among the entry types; without entry types
every block does. -/
def isEntry (entryTypes : List String) (n : Node) : Bool :=
  entryTypes.isEmpty || entryTypes.contains (n.attrOf "type")

/-- The variables and the entry candidates among the children of the root. -/
def outline (entryTypes : List String) : List Node → Except ParseError Outline
  | [] => .ok ⟨[], []⟩
  | n :: rest =>
    match n with
    | .absent => .error .absentNode
    | .element tag _ _ children => do
      if tag == "variables" then
        let vars ← toVariables children
        let more ← outline entryTypes rest
        .ok ⟨vars ++ more.declarations, more.candidates⟩
      else if tag == "block" && isEntry entryTypes n then
        let more ← outline entryTypes rest
        .ok ⟨more.declarations, n :: more.candidates⟩
      else outline entryTypes rest

/-- The program that a tree writes. -/
def parse (entryTypes : List String) : Node → Except ParseError Document
  | .absent => .error .noRoot
  | .element _ _ _ children => do
    let found ← outline entryTypes children
    match found.candidates with
    | [] => .error .noEntry
    | [candidate] =>
      let parsed := parseChain candidate
      let entry ← parsed.outcome
      .ok ⟨found.declarations, entry, parsed.warnings⟩
    | many => .error (.manyEntries (many.map (·.attrOf "id")))

end Node

end Blockwork
