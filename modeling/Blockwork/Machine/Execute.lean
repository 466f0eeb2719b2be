import Blockwork.Blocks.Action
import Blockwork.Program.Parse

/-!
# Execution

A chain runs its blocks from the first to the last and returns the result of the last. A block is
routed by its opcode, handed to the action it routes to, and observed once it is completed.
Executing a chain nests by one; the limit on nesting is checked when a chain is entered, so a long
chain costs nothing.

The recursion follows the program: an action reaches only the slots of its own block, and these
come to it as computations.
-/

namespace Blockwork

variable {σ : Type}

/-- A computation of the machine with the actions of this library. -/
abbrev Job (σ β : Type) : Type := Run Action σ β

namespace Machine

/-- Runs a job one level deeper, unless the limit is reached. The level is left on every way
out. -/
def nested {β : Type} (id : String) (job : Job σ β) : Job σ β := fun setup s =>
  if setup.limit ≤ s.depth then (.fault (.tooDeep setup.limit id), s)
  else
    let (outcome, s) := job setup { s with depth := s.depth + 1 }
    (outcome, { s with depth := s.depth - 1 })

/-- Routes an opcode. -/
def routed (opcode : String) : Job σ (Route Action) := fun _ s =>
  let (found, registry) := s.registry.resolve opcode
  let s := { s with registry := registry }
  match found with
  | .ok route => (.value route, s)
  | .error e => (.fault (.routing e), s)

/-- Counts a completed block and tells the observer. -/
def completed (scope : Scope Action σ) (result : Value) : Job σ Unit := fun setup s =>
  let s := { s with steps := s.steps + 1 }
  let observation : Observation :=
    { id := scope.id, opcode := scope.opcode, module := scope.module, function := scope.function
      depth := s.depth, result := result, heap := s.heap, store := s.store
      emitted := s.events.size }
  (.value (), { s with memory := (setup.observer.observe observation s.memory).1 })

/-- Runs the block of a scope: the action it routes to, and the completion. -/
def dispatch (opcode id : String) (slots : List (Slot Action σ)) : Job σ Value := do
  let route ← routed opcode
  let scope : Scope Action σ := ⟨opcode, id, route.module, route.function, slots⟩
  let result ← (route.handler.perform scope).mapFault (.wrap route.module route.function id)
  completed scope result
  return result

mutual

/-- Runs a chain of blocks. -/
def execute : List Block → Job σ Value
  | [] => .done .undefined
  | b :: rest => nested b.id do
    let v ← executeBlock b
    executeRest v rest

/-- Runs the rest of a chain, given the result of the block before it. -/
def executeRest (v : Value) : List Block → Job σ Value
  | [] => .done v
  | b :: rest => do
    let v ← executeBlock b
    executeRest v rest

/-- Runs one block. -/
def executeBlock : Block → Job σ Value
  | .mk opcode id members => fun setup s => dispatch opcode id (slotsOf members) setup s

/-- The slots of a block with the computations behind them. -/
def slotsOf : List Member → List (Slot Action σ)
  | [] => []
  | m :: ms => slotOf m :: slotsOf ms

/-- A slot with the computation behind it. -/
def slotOf : Member → Slot Action σ
  | .expression name chain => .value name (.block chain) (execute chain)
  | .literal name shadow => .value name (.shadow shadow) (.done (.text shadow.field.value))
  | .statement name chain => .statement name chain (execute chain)
  | .field f => .field f

end

/-- The last value slot of a block with a name, as a computation. -/
def valueSlot? (b : Block) (name : String) : Option (Job σ Value) :=
  ((Scope.mk b.opcode b.id "" "" (slotsOf b.members)).value? name).map (·.2)

end Machine

/-! ### Machines -/

/-- A machine: a document, a setup and a state. -/
structure Machine (σ : Type) where
  document : Document
  setup : Setup σ
  state : State Action σ

namespace Machine

/-- A machine that has not run yet, with some modules. -/
def create (document : Document) (setup : Setup σ) (modules : List (String × Table Action))
    (memory : σ) : Machine σ where
  document := document
  setup := setup
  state :=
    { heap := .ofVariables document.declarations, store := .empty
      registry := modules.foldl (fun r (name, table) => r.register name table) .empty
      depth := 0, steps := 0, counter := 0, events := #[], memory := memory }

/-- Does a job. -/
def perform {β : Type} (m : Machine σ) (job : Job σ β) : Outcome β × Machine σ :=
  let (outcome, state) := job m.setup m.state
  (outcome, { m with state := state })

/-- The job of a whole run: fresh variables, no steps, then the entry chain. -/
def program (document : Document) : Job σ Value := do
  Run.modify fun s => { s with heap := .ofVariables document.declarations, steps := 0 }
  execute document.entry

/-- Runs the document from its start. -/
def run (m : Machine σ) : Outcome Value × Machine σ := m.perform (program m.document)

/-- Routes opcodes one after the other and collects the errors. -/
def checkOpcodes : List String → Job σ (List RoutingError)
  | [] => .done []
  | opcode :: opcodes => fun setup s =>
    let (found, registry) := s.registry.resolve opcode
    match checkOpcodes opcodes setup { s with registry := registry } with
    | (.value errors, s) =>
      match found with
      | .ok _ => (.value errors, s)
      | .error e => (.value (e :: errors), s)
    | other => other

/-- Routes every opcode of the document ahead of a run: the errors in the order in which the
opcodes are met first. -/
def check (m : Machine σ) : Outcome (List RoutingError) × Machine σ :=
  m.perform (checkOpcodes (Chain.opcodes m.document.entry))

end Machine

end Blockwork
