import Blockwork.Machine.Scope

/-!
# Introspection blocks

Blocks that look at the machine from inside: at their own slots, at the depth and the heap, and at
the faults of the statements they run. They are meant for exercising programs and handlers, so
some of them fail or break off on purpose. The field `NAME` names the slot or variable they look
at; other fields carry texts and limits. A field that is missing reads as empty.
-/

namespace Blockwork.Blocks

/-- The functions of the probe module. -/
inductive Probe where
  | slots
  | has
  | get
  | value
  | field
  | execute
  | info
  | fail
  | breakOff
  | wrap
  | tryOut
  | showVariable
  | hideVariable
  | tick
  | limit
  | list
  | deep
  | typed
deriving DecidableEq, Inhabited

namespace Probe

variable {α σ : Type}

/-- The functions by name. -/
def functions : List (String × Probe) :=
  [("slots", .slots), ("has", .has), ("get", .get), ("value", .value), ("value2", .value),
   ("field", .field), ("exec", .execute), ("exec2", .execute), ("info", .info), ("fail", .fail),
   ("panic", .breakOff), ("wrap", .wrap), ("try", .tryOut), ("show", .showVariable),
   ("hide", .hideVariable), ("tick", .tick), ("limit", .limit), ("list", .list), ("deep", .deep),
   ("typed", .typed)]

/-- The text of a field, empty when the block has no such field. -/
def textOf (s : Scope α σ) (name : String) : String :=
  match s.field? name with
  | some f => f.value
  | none => ""

/-- The number that a field writes, zero when it writes none. -/
def numberOf (s : Scope α σ) (name : String) : Binary64 :=
  match (Value.text (textOf s name)).toNumber with
  | .ok n => n
  | .error _ => .zero

/-- A new list as a value. -/
def listValue (items : List Value) : Run α σ Value := do
  return .list (← Run.newList items.toArray)

/-- A value inside a number of nested lists. -/
def nest (v : Value) : (depth : Nat) → Run α σ Value
  | 0 => return v
  | depth + 1 => do listValue [← nest v depth]

/-- Counts one more and returns the count. -/
def countUp : Run α σ Nat := do
  Run.modify fun s => { s with counter := s.counter + 1 }
  return (← Run.state).counter

/-- The opcode of the first block of a chain. -/
def firstOpcode : Chain → String
  | b :: _ => b.opcode
  | [] => ""

/-- What an introspection block does. -/
def perform (p : Probe) (s : Scope α σ) : Run α σ Value := do
  let name := textOf s "NAME"
  match p with
  | .slots => listValue (s.slotNames.map .text)
  | .has =>
    listValue [.truth (s.value? name).isSome, .truth (s.statement? name).isSome,
      .truth (s.field? name).isSome]
  | .get =>
    if textOf s "KIND" == "value" then
      match (← s.getValue name).1 with
      | .block chain => return .text ("block " ++ firstOpcode chain)
      | .shadow literal => return .text ("shadow " ++ literal.field.value)
    else if textOf s "KIND" == "statement" then
      return .text (firstOpcode (← s.getStatement name).1)
    else return .text (← s.getField name).value
  | .value => s.evaluate name
  | .field => s.fieldVariable name
  | .execute => s.execute name
  | .info =>
    let state ← Run.state
    listValue [.text s.module, .text s.function, .text s.opcode, .text s.id,
      .number (.ofNat state.depth), .number (.ofNat state.heap.size),
      .text Kind.undefined.name]
  | .fail => Run.fail (.raised (textOf s "MSG"))
  | .breakOff => Run.fail (.panicked (textOf s "MSG"))
  | .wrap => (s.execute name).mapFault (.through "wrapped")
  | .tryOut =>
    match ← (s.execute name).attempt with
    | .ok v => return v
    | .error f => return .text ("caught: " ++ f.message)
  | .showVariable =>
    s.showVariable name
    return .undefined
  | .hideVariable =>
    s.hideVariable name
    return .undefined
  | .tick => return .number (.ofNat (← countUp))
  | .limit =>
    if (numberOf s "MAX").lt (.ofNat (← countUp)) then Run.fail (.raised "limit reached")
    return .undefined
  | .list =>
    let items := textOf s "ITEMS"
    if items == "" then listValue []
    else listValue ((items.splitOn ",").map .text)
  | .deep => nest (.text "x") (numberOf s "MAX").toIndex.toNat
  | .typed =>
    let text := textOf s "TEXT"
    match textOf s "KIND" with
    | "number" =>
      match (Value.text text).toNumber with
      | .ok n => return .number n
      | .error m => Run.fail (.mismatch m)
    | "bool" => return .truth (text == "true")
    | "undefined" => return .undefined
    | _ => return .text text

end Probe

end Blockwork.Blocks
