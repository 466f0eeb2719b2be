import Blockwork.Machine.Run

/-!
# What a handler sees of its block

The slots of a block by kind and name, each with the computation that evaluates it. When a name
occurs more than once among the members of one kind, the last member counts. An empty slot is
missing; handlers that can do without a slot ask for it first.
-/

namespace Blockwork

/-- What a value slot holds: a chain of blocks or a literal. -/
inductive Content where
  | block (chain : Chain)
  | shadow (s : Shadow)

/-- A member of a block with the computation behind it. -/
inductive Slot (α σ : Type) where
  | value (name : String) (content : Content) (evaluate : Run α σ Value)
  | statement (name : String) (chain : Chain) (execute : Run α σ Value)
  | field (f : Field)

/-- A block as its handler sees it. -/
structure Scope (α σ : Type) where
  opcode : String
  id : String
  module : String
  function : String
  slots : List (Slot α σ)

namespace Scope

variable {α σ : Type}

/-! ### Looking up slots -/

/-- The last value slot with a name. -/
def value? (s : Scope α σ) (name : String) : Option (Content × Run α σ Value) :=
  s.slots.reverse.findSome? fun
    | .value n content evaluate => if n == name then some (content, evaluate) else none
    | _ => none

/-- The last statement slot with a name. -/
def statement? (s : Scope α σ) (name : String) : Option (Chain × Run α σ Value) :=
  s.slots.reverse.findSome? fun
    | .statement n chain execute => if n == name then some (chain, execute) else none
    | _ => none

/-- The last field with a name. -/
def field? (s : Scope α σ) (name : String) : Option Field :=
  s.slots.reverse.findSome? fun
    | .field f => if f.name == name then some f else none
    | _ => none

/-- The fault of a slot that is missing. -/
def missing (s : Scope α σ) (kind : MemberKind) (name : String) : Fault :=
  .slotMissing kind name s.opcode

/-- A value slot. -/
def getValue (s : Scope α σ) (name : String) : Run α σ (Content × Run α σ Value) :=
  match s.value? name with
  | some found => .done found
  | none => .fail (s.missing .value name)

/-- A statement slot. -/
def getStatement (s : Scope α σ) (name : String) : Run α σ (Chain × Run α σ Value) :=
  match s.statement? name with
  | some found => .done found
  | none => .fail (s.missing .statement name)

/-- A field. -/
def getField (s : Scope α σ) (name : String) : Run α σ Field :=
  match s.field? name with
  | some found => .done found
  | none => .fail (s.missing .field name)

/-- The name of a slot. -/
def slotName : Slot α σ → String
  | .value n _ _ => n
  | .statement n _ _ => n
  | .field f => f.name

/-- The names of all slots, each once, in order. -/
def slotNames (s : Scope α σ) : List String :=
  (s.slots.map slotName).eraseDups.mergeSort fun a b => !decide (b < a)

/-! ### Using slots -/

/-- Evaluates a value slot. -/
def evaluate (s : Scope α σ) (name : String) : Run α σ Value := do
  (← s.getValue name).2

/-- Runs a statement slot. -/
def execute (s : Scope α σ) (name : String) : Run α σ Value := do
  (← s.getStatement name).2

/-- The text of a field. -/
def fieldText (s : Scope α σ) (name : String) : Run α σ String := do
  return (← s.getField name).value

/-- The value of the variable that a field names. -/
def fieldVariable (s : Scope α σ) (name : String) : Run α σ Value := do
  Run.lookup (← s.fieldText name)

/-- Evaluates a value slot as a number. -/
def number (s : Scope α σ) (name : String) : Run α σ Binary64 := do
  match (← s.evaluate name).toNumber with
  | .ok n => return n
  | .error m => Run.fail (.through name (.mismatch m))

/-- Evaluates a value slot as a position. -/
def index (s : Scope α σ) (name : String) : Run α σ Int := do
  return (← s.number name).toIndex

/-- Evaluates a value slot as a condition; a missing slot is false. -/
def condition (s : Scope α σ) (name : String) : Run α σ Bool :=
  match s.value? name with
  | none => .done false
  | some (_, evaluate) => do
    let v ← evaluate
    return v.truthy (← Run.state).store

/-- Runs a statement slot; a missing slot does nothing. -/
def body (s : Scope α σ) (name : String) : Run α σ Unit :=
  match s.statement? name with
  | none => .done ()
  | some (_, execute) => do
    let _ ← execute

/-- Shows a variable. -/
def showVariable (_ : Scope α σ) (name : String) : Run α σ Unit := do
  let s ← Run.state
  Run.emit (.shown name ((s.heap.get? name).map s.store.read))

/-- Hides a variable. -/
def hideVariable (s : Scope α σ) (name : String) : Run α σ Unit :=
  Run.emit (.hidden name s.id)

end Scope

end Blockwork
