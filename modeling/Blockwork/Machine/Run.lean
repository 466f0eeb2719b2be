import Blockwork.Machine.Fault
import Blockwork.Machine.Heap

/-!
# Runs

A computation of the machine takes a fixed setup and a state, and ends with a value or a fault and
the state it left. The third outcome, `unfinished`, says that a loop used up its budget of
iterations; it stands for a run that has not ended yet and is neither a value nor a fault.

An observer is told of every completed block. It keeps a memory of its own, of a type that the
machine knows nothing about, and may break off with a text, which the machine drops. It sees the
variables and lists and cannot change them, and it always returns.
-/

namespace Blockwork

/-- What a program does that can be seen from outside. -/
inductive Event where
  /-- A variable is shown; an undeclared name has no value. -/
  | shown (name : String) (value : Option Datum)
  /-- A variable is hidden, by the block with this identifier. -/
  | hidden (name id : String)
  /-- A line is printed. -/
  | logged (line : String)
deriving Inhabited

/-- What an observer is told of a completed block. -/
structure Observation where
  id : String
  opcode : String
  module : String
  function : String
  depth : Nat
  result : Value
  heap : Heap
  store : Store
  /-- How many events there were before. -/
  emitted : Nat

/-- A listener with a memory of type `σ`. It returns its memory after the observation, and a text
when it broke off. -/
structure Observer (σ : Type) where
  observe : Observation → σ → σ × Option String

namespace Observer

/-- The observer that does nothing. -/
def silent : Observer Unit := ⟨fun _ _ => ((), none)⟩

end Observer

/-- What stays fixed during a run. -/
structure Setup (σ : Type) where
  observer : Observer σ
  /-- How deep blocks may nest. -/
  limit : Nat
  /-- How often an open-ended loop may iterate. -/
  budget : Nat

/-- How deep blocks may nest unless told otherwise. -/
def defaultLimit : Nat := 1000

/-- The depth limit for a requested one; a request below one is ignored. -/
def limitOf (requested : Int) : Nat := if 0 < requested then requested.toNat else defaultLimit

/-- What changes during a run; `α` is what functions of modules are. -/
structure State (α σ : Type) where
  heap : Heap
  store : Store
  registry : Registry α
  /-- How many chains are being executed. -/
  depth : Nat
  /-- How many blocks were completed. -/
  steps : Nat
  /-- A counter that introspection blocks share. -/
  counter : Nat
  events : Array Event
  /-- The observer's memory. -/
  memory : σ

/-- How a computation ends. -/
inductive Outcome (β : Type) where
  | value (b : β)
  | fault (f : Fault)
  /-- The budget of a loop is used up. -/
  | unfinished

/-- A computation of the machine. -/
def Run (α σ β : Type) : Type := Setup σ → State α σ → Outcome β × State α σ

namespace Run

variable {α σ β γ : Type}

/-- Ends with a value. -/
@[always_inline, inline]
def done (b : β) : Run α σ β := fun _ s => (.value b, s)

/-- Goes on with the value of a computation, if it has one. -/
@[always_inline, inline]
def andThen (x : Run α σ β) (f : β → Run α σ γ) : Run α σ γ := fun setup s =>
  match x setup s with
  | (.value b, s) => f b setup s
  | (.fault e, s) => (.fault e, s)
  | (.unfinished, s) => (.unfinished, s)

@[always_inline]
instance : Monad (Run α σ) where
  pure := done
  bind := andThen

/-- Ends with a fault. -/
def fail (f : Fault) : Run α σ β := fun _ s => (.fault f, s)

/-- Ends with the budget used up. -/
def exhausted : Run α σ β := fun _ s => (.unfinished, s)

/-- The setup. -/
def setup : Run α σ (Setup σ) := fun setup s => (.value setup, s)

/-- The state. -/
def state : Run α σ (State α σ) := fun _ s => (.value s, s)

/-- Changes the state. -/
def modify (f : State α σ → State α σ) : Run α σ Unit := fun _ s => (.value (), f s)

/-- Runs a computation and hands on its fault as a value. -/
def attempt (x : Run α σ β) : Run α σ (Except Fault β) := fun setup s =>
  match x setup s with
  | (.value b, s) => (.value (.ok b), s)
  | (.fault e, s) => (.value (.error e), s)
  | (.unfinished, s) => (.unfinished, s)

/-- Applies a change to the fault of a computation. -/
def mapFault (g : Fault → Fault) (x : Run α σ β) : Run α σ β := fun setup s =>
  match x setup s with
  | (.fault e, s) => (.fault (g e), s)
  | other => other

/-- Adds an event. -/
def emit (e : Event) : Run α σ Unit := modify fun s => { s with events := s.events.push e }

/-! ### Loops -/

/-- Repeats a step until it answers false, at most `budget` times. -/
def loop (step : Run α σ Bool) : (budget : Nat) → Run α σ Unit
  | 0 => exhausted
  | budget + 1 => do
    if ← step then loop step budget else done ()

/-- Repeats a step as often as it answers true, within the budget of the setup. -/
def loopWhile (step : Run α σ Bool) : Run α σ Unit := do
  loop step (← setup).budget

/-- Runs a step a fixed number of times. -/
def times (step : Run α σ Unit) : (count : Nat) → Run α σ Unit
  | 0 => done ()
  | count + 1 => do
    step
    times step count

/-! ### Variables and lists -/

/-- The value of a variable. -/
def lookup (name : String) : Run α σ Value := do
  match (← state).heap.get? name with
  | some v => done v
  | none => fail (.unknownVariable name)

/-- Assigns a variable. -/
def assign (name : String) (v : Value) : Run α σ Unit := do
  match (← state).heap.set? name v with
  | some heap => modify fun s => { s with heap := heap }
  | none => fail (.unknownVariable name)

/-- A new list. -/
def newList (items : Array Value) : Run α σ ListId := fun _ s =>
  let (id, store) := s.store.create items
  (.value id, { s with store := store })

/-- The items of a list. -/
def itemsOf (id : ListId) : Run α σ (Array Value) := fun _ s => (.value (s.store.items id), s)

/-- Applies a change to the items of a list. -/
def updateList (id : ListId) (f : Array Value → Array Value) : Run α σ Unit :=
  modify fun s => { s with store := s.store.update id f }

/-- The text that shows a value. -/
def display (v : Value) : Run α σ String := fun _ s => (.value (v.display s.store), s)

end Run

end Blockwork
