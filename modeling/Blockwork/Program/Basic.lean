import Blockwork.Text.Quoted

/-!
# Block programs

A document declares variables and holds one script, a chain of blocks. A block has an opcode and
named members: value slots, which hold either a chain that computes the value or a literal, the
shadow; statement slots, which hold a chain; and fields, which hold a text.
-/

namespace Blockwork

/-- A variable that a document declares. -/
structure Variable where
  name : String
  type : String
  id : String
  isLocal : Bool
  isCloud : Bool
deriving DecidableEq, Inhabited

/-- A literal inside a block. -/
structure Field where
  name : String
  id : String
  value : String
  variableType : String
deriving DecidableEq, Inhabited

/-- The literal of a value slot to which no block is connected. -/
structure Shadow where
  type : String
  id : String
  field : Field
deriving DecidableEq, Inhabited

mutual

/-- One step of a script. -/
inductive Block where
  | mk (opcode : String) (id : String) (members : List Member)

/-- A named slot of a block. -/
inductive Member where
  /-- A value slot that holds a chain of blocks. -/
  | expression (name : String) (chain : List Block)
  /-- A value slot that holds a literal. -/
  | literal (name : String) (shadow : Shadow)
  /-- A statement slot. -/
  | statement (name : String) (chain : List Block)
  | field (field : Field)

end

/-- Blocks that run one after the other. -/
abbrev Chain := List Block

namespace Block

/-- What the block does: the name of its module and of a function in it. -/
def opcode : Block → String
  | mk opcode _ _ => opcode

/-- The identifier of the block in its document. -/
def id : Block → String
  | mk _ id _ => id

/-- The members in document order. -/
def members : Block → List Member
  | mk _ _ members => members

end Block

/-- The three kinds of members. -/
inductive MemberKind where
  | value
  | statement
  | field
deriving DecidableEq, Inhabited

namespace MemberKind

/-- The name of a kind, which is also the tag of its elements. -/
def name : MemberKind → String
  | value => "value"
  | statement => "statement"
  | field => "field"

end MemberKind

namespace Member

/-- The name of the slot. -/
def name : Member → String
  | expression n _ => n
  | literal n _ => n
  | statement n _ => n
  | field f => f.name

/-- The kind of the slot. -/
def kind : Member → MemberKind
  | expression .. => .value
  | literal .. => .value
  | statement .. => .statement
  | field _ => .field

end Member

end Blockwork
