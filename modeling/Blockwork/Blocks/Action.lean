import Blockwork.Blocks.Control
import Blockwork.Blocks.Data
import Blockwork.Blocks.Operator
import Blockwork.Blocks.Probe

/-!
# The modules

Everything a function of a module can be, and the tables of the modules that come with the
machine. An action is plain data, so a registry can be kept in the state of a run; `perform` says
what it does.
-/

namespace Blockwork

/-- What a function of a module does. -/
inductive Action where
  | control (c : Blocks.Control)
  | data (d : Blocks.Data)
  /-- Marks where a script starts and does nothing. -/
  | start
  | operator (o : Blocks.Operator)
  /-- Prints the value slot `MESSAGE` as a line. -/
  | print
  | probe (p : Blocks.Probe)
  /-- Answers with a fixed text. -/
  | answer (text : String)
deriving DecidableEq, Inhabited

namespace Action

variable {σ : Type}

/-- What an action does in a scope. -/
def perform (a : Action) (s : Scope Action σ) : Run Action σ Value :=
  match a with
  | control c => c.perform s
  | data d => d.perform s
  | start => .done .undefined
  | operator o => o.perform s
  | print => do
    let v ← s.evaluate "MESSAGE"
    Run.emit (.logged (← Run.display v))
    return .undefined
  | probe p => p.perform s
  | answer text => .done (.text text)

end Action

namespace Blocks

/-- A table of functions. -/
def tableOf {β : Type} (action : β → Action) (functions : List (String × β)) : Table Action :=
  functions.map fun (name, f) => (name, some (action f))

/-- Loops and branches. -/
def controlTable : Table Action := tableOf .control Control.functions

/-- Variables and lists. -/
def dataTable : Table Action := tableOf .data Data.functions

/-- The starts of scripts. -/
def eventTable : Table Action :=
  ["whenflagclicked", "whenkeypressed", "whenbroadcastreceived"].map fun name =>
    (name, some .start)

/-- Arithmetic, comparison, logic and texts. -/
def operatorTable : Table Action := tableOf .operator Operator.functions

/-- Printing. -/
def consoleTable : Table Action := [("log", some .print)]

/-- Introspection. -/
def probeTable : Table Action := tableOf .probe Probe.functions

/-- The standard modules in the order of their names. -/
def standard : List (String × Table Action) :=
  [("control", controlTable), ("data", dataTable), ("event", eventTable),
   ("operator", operatorTable)]

/-- The standard modules and the two that a host adds. -/
def available : List (String × Table Action) :=
  standard ++ [("probe", probeTable), ("console", consoleTable)]

/-- Picks standard modules by name, each once; the first name that is none is the error. -/
def select : List String → Except String (List (String × Table Action))
  | [] => .ok []
  | name :: names =>
    match standard.find? (·.1 == name) with
    | none => .error ("unknown module " ++ Text.quote name)
    | some m => do
      let rest ← select names
      .ok (m :: rest.filter (·.1 != name))

/-- A module whose functions answer with the tag and their name; some names have no function. -/
def answering (tag : String) (functions missing : List String) : Table Action :=
  let table := functions.foldl (fun (t : Table Action) f =>
    t.insert f (some (.answer (tag ++ "." ++ f)))) []
  missing.foldl (fun t f => t.insert f none) table

end Blocks

end Blockwork
